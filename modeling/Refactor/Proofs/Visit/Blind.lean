import Refactor.Proofs.Visit.Mirrored

/-!
# Passes in a session

A pass in a session ends as it does in one that has the same supply and nothing else
(`runPass_blind`): with the same result, and having asked for the run to stop if it does so there. The
objects of the two are the same, so each of them stands for itself.
-/

namespace Refactor

namespace Mirror

/-- Every object stands for itself. -/
def self : Mirror Nat NodeId where
  ids i := i
  left i := i
  right i := i
  left_injective _ _ h := h
  right_injective _ _ h := h
  empty := rfl

theorem glimpse_injective : Function.Injective (self.glimpse self.left) := by
  rintro ⟨stamp, nodeId, leading, ⟨set, entries⟩⟩ ⟨stamp', nodeId', leading', ⟨set', entries'⟩⟩ h
  simp only [glimpse, self, Glimpse.mk.injEq] at h
  simp only [h]

theorem eq_of_self {n n' : Node} (h : self.Nodes n n') : n' = n := by
  induction n using Labelled.ind generalizing n' with
  | node l s ih =>
    have hlabel : n'.label = l := (glimpse_injective h.label).symm
    have hchildren : List.Forall₂ Eq s.children n'.children :=
      forall₂_imp_of_mem h.children fun c hc c' hcc' => (ih c hc hcc').symm
    rw [List.forall₂_eq_eq_eq] at hchildren
    have hshape := Shape.map_withChildren_congr h.shape
      (congrArg (List.map fun c => c) hchildren) rfl
    rw [Shape.map_id_fun, Shape.map_id_fun] at hshape
    rw [← Labelled.mk_label_shape n', hlabel, ← Shape.withChildren_children n'.shape]
    exact congrArg _ (hshape.symm.trans (Shape.withChildren_children s))

theorem supply_eq_of_self : ∀ {s s' : Supply}, self.Supplies s s' → s' = s
  | ⟨stamp, ids⟩, ⟨stamp', ids'⟩, h => by
    have hstamp : stamp = stamp' := h.stamps 0
    have hids : ids = ids' := funext fun i => NodeId.minted.inj (h.ids i)
    rw [hstamp, hids]

end Mirror

/-- The second context is the first one with some other journal and, where `asked`, with a request to
stop that it was given beforehand. -/
structure Context.Alike (asked : Bool) (c c' : Context) : Prop where
  source : c'.source = c.source
  cycle : c'.cycle = c.cycle
  hierarchy : c'.hierarchy = c.hierarchy
  cursor : c'.cursor = c.cursor
  deferred : c'.deferred = c.deferred
  queued : c'.queued = c.queued
  visited : c'.visited = c.visited
  supply : c'.session.supply = c.session.supply
  cancelled : c'.session.cancelled = (asked || c.session.cancelled)

theorem Context.alike_iff {asked : Bool} {c c' : Context} :
    c.Alike asked c' ↔ c.Mirrored .self asked c' := by
  constructor
  · intro h
    refine { h with supply := ?_ }
    rw [h.supply]
    exact ⟨fun _ => rfl, fun _ => rfl⟩
  · exact fun h => { h with supply := Mirror.supply_eq_of_self h.supply }

/-- The two computations ended alike, in contexts that are alike. -/
inductive Outcome.Alike {α : Type} (asked : Bool) : Outcome α → Outcome α → Prop
  | done (a : α) {c c' : Context} : c.Alike asked c' → Outcome.Alike asked (.done a c) (.done a c')
  | failed (e : VisitError) {c c' : Context} : c.Alike asked c' →
      Outcome.Alike asked (.failed e c) (.failed e c')
  | exhausted : Outcome.Alike asked .exhausted .exhausted

/-- **A pass is blind** to the journal and to requests to stop. -/
theorem runPass_blind (fuel : Nat) (v : Visitor) (n : Node) (asked : Bool) (c c' : Context)
    (h : c.Alike asked c') : Outcome.Alike asked (runPass fuel v n c) (runPass fuel v n c') := by
  have hpass := runPass_mirrored (fun _ => rfl) fuel v (rfl : Mirror.self.Nodes n n) c c'
    (Context.alike_iff.1 h)
  generalize runPass fuel v n c = o at hpass ⊢
  generalize runPass fuel v n c' = o' at hpass ⊢
  cases hpass with
  | done hm hc =>
    obtain rfl := Mirror.eq_of_self hm
    exact .done _ (Context.alike_iff.2 hc)
  | failed e hc => exact .failed e (Context.alike_iff.2 hc)
  | exhausted => exact .exhausted

end Refactor
