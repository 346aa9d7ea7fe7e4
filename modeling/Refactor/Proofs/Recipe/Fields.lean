import Refactor.Proofs.Visit.Local
import Refactor.Recipe.Fields

/-!
# Setting the visibility of fields, on content

The visitor changes the modifiers of a declaration that stands right in the body of a class, unless
they show the visibility already, and nothing else.
-/

namespace Refactor

namespace Visibility

/-- Replacing the visibility leaves it just that. -/
theorem filter_replaceIn (v : Visibility) (ms : List Modifier) :
    (v.replaceIn ms).filter (·.isVisibility) = v.modifiers := by
  have hnone : ∀ xs : List Modifier, (∀ m ∈ xs, m ∈ ms.filter (!·.isVisibility)) →
      xs.filter (·.isVisibility) = [] := by
    intro xs hxs
    refine List.filter_eq_nil_iff.2 fun m hm => ?_
    simpa using (List.mem_filter.1 (hxs m hm)).2
  have hown : v.modifiers.filter (·.isVisibility) = v.modifiers := by cases v <;> rfl
  unfold replaceIn
  simp only [List.filter_append, hown, hnone _ fun m => List.mem_of_mem_take,
    hnone _ fun m => List.mem_of_mem_drop, List.nil_append, List.append_nil]

theorem applyTo_eq_some {v : Visibility} {ms ms' : List Modifier} (h : v.applyTo ms = some ms') :
    ms' ≠ ms ∧ v.applyTo ms' = none := by
  unfold applyTo at h
  by_cases heq : ms.filter (·.isVisibility) = v.modifiers
  · rw [if_pos heq] at h
    cases h
  · rw [if_neg heq] at h
    obtain rfl : v.replaceIn ms = ms' := Option.some.inj h
    refine ⟨fun hsame => heq ?_, by rw [applyTo, if_pos (v.filter_replaceIn ms)]⟩
    rw [← hsame, filter_replaceIn]

end Visibility

namespace ChangeFieldVisibility

/-- What the visitor makes of a node. -/
def change (v : Visibility) (path : List Tree) (t : Tree) : Tree :=
  match t.shape with
  | .variableDecls ms typeExpr declarators =>
    match isMember (.ofPath path), v.applyTo ms with
    | true, some ms' => .mk t.label (.variableDecls ms' typeExpr declarators)
    | _, _ => t
  | _ => t

/-- What the visitor does at a node that has been walked. -/
def finish (v : Visibility) (p : Place) : Script Visitor :=
  match p.current.kind with
  | .variableDecls => if isMember p.cursor then update v else .done
  | _ => .done

theorem visitor_walksThen (v : Visibility) :
    ∃ name s, visitor v = .plain name s ∧ s.WalksThen (finish v) := by
  refine ⟨_, _, rfl, walksThen_look_kind fun p visitChild n kind hkind => ?_⟩
  unfold finish
  rw [hkind]
  cases kind <;> rfl

theorem finish_changes (v : Visibility) (σ : Setting) :
    Script.Changes σ (change v) (finish v) := by
  intro visitChild n m c c' hc hc' hm hover
  have hstay : change v (n.content :: c.cursor.path) m.content = m.content →
      ((Script.done : Script Visitor).run visitChild m).Yields c' fun k =>
        k.content = change v (n.content :: c.cursor.path) m.content ∧ Node.Edited σ.bound m k :=
    fun h => run_done_yields hm ⟨h.symm, Or.inl rfl⟩
  have hcursor : (c.enter n.content).cursor = .ofPath (n.content :: c.cursor.path) := by
    rw [Cursor.ofPath_cons, Cursor.ofPath_path]
    rfl
  unfold finish
  rw [Context.current_place, Context.cursor_place, Node.kind_content, ← hover.kind, hcursor]
  obtain ⟨l, s⟩ := m
  cases s with
  | variableDecls ms typeExpr declarators =>
    rw [Labelled.kind_mk, Shape.kind]
    cases hmember : isMember (.ofPath (n.content :: c.cursor.path)) with
    | false => exact hstay (by simp [change, hmember])
    | true =>
      have hmods : (Node.content (.mk l (.variableDecls ms typeExpr declarators))).modifiers = ms := by
        simp [Labelled.modifiers, Shape.modifiers]
      refine run_look_yields ?_
      rw [Context.current_place, hmods]
      cases happly : v.applyTo ms with
      | none => exact hstay (by simp [change, hmember, happly])
      | some ms' =>
        refine run_tell_yields ((run_edit_yields (c := c'.tell _)
          (s := .variableDecls ms' typeExpr declarators) rfl hc.bound hm rfl ?_).imp ?_)
        · simp [(Visibility.applyTo_eq_some happly).1]
        · rintro k ⟨hk, hedited⟩
          refine ⟨?_, hedited⟩
          rw [hk]
          simp [change, hmember, happly]
  | _ => exact hstay rfl

theorem change_inPlace (v : Visibility) : Tree.InPlace (change v) := by
  have h : ∀ path t, (change v path t).label = t.label ∧
      (change v path t).shape.slotted = t.shape.slotted ∧ (change v path t).kind = t.kind := by
    intro path t
    obtain ⟨l, s⟩ := t
    cases s with
    | variableDecls ms typeExpr declarators =>
      simp only [change, Labelled.shape_mk]
      split <;> exact ⟨rfl, rfl, rfl⟩
    | _ => exact ⟨rfl, rfl, rfl⟩
  exact ⟨fun path t => by rw [(h path t).1], fun path t => (h path t).2.1, fun path t => (h path t).2.2⟩

/-- Whether a declaration is a member is a question of kinds. -/
theorem change_of_kinds (v : Visibility) (path path' : List Tree) (t : Tree)
    (h : path.map Labelled.kind = path'.map Labelled.kind) : change v path t = change v path' t := by
  have hmember : isMember (.ofPath path) = isMember (.ofPath path') := by
    unfold isMember Cursor.ancestors
    rw [Cursor.path_ofPath, Cursor.path_ofPath]
    rcases path with _ | ⟨a, _ | ⟨b, _ | ⟨o, path⟩⟩⟩ <;>
      rcases path' with _ | ⟨a', _ | ⟨b', _ | ⟨o', path'⟩⟩⟩ <;> simp_all
  unfold change
  rw [hmember]

theorem change_change (v : Visibility) (path : List Tree) (t : Tree) :
    change v path (change v path t) = change v path t := by
  obtain ⟨l, s⟩ := t
  cases s with
  | variableDecls ms typeExpr declarators =>
    cases hmember : isMember (.ofPath path) with
    | false => simp [change, hmember]
    | true =>
      cases happly : v.applyTo ms with
      | none => simp [change, hmember, happly]
      | some ms' => simp [change, hmember, happly, (Visibility.applyTo_eq_some happly).2]
  | _ => rfl

end ChangeFieldVisibility

end Refactor
