import Mathlib.Data.Stream.Init
import Refactor.Proofs.Visit.Edits

/-!
# What is taken from the supply

Whatever makes objects takes stamps and ids from the supply, and it does not depend on the ids that it
leaves. From another supply that begins with the ids it takes it makes the same, and what is left of that
supply is what comes after them (`Alloc.Frugal`). So the ids that are yet to be made up may be exchanged
for others.
-/

namespace Refactor

namespace Supply

/-- The ids that are yet to be made up. -/
def upcoming (s : Supply) : Stream' Nat := s.ids

/-- What is left of a supply when those ids have been made up, and some stamps given out. -/
structure Draws (s : Supply) (drawn : List Nat) (s' : Supply) : Prop where
  stamp : s.stamp ≤ s'.stamp
  upcoming : s.upcoming = drawn ++ₛ s'.upcoming

/-- Another supply with the same stamps, whose ids are those to begin with and then the rest. -/
structure Starts (s : Supply) (drawn : List Nat) (rest : Stream' Nat) (s' : Supply) : Prop where
  stamp : s'.stamp = s.stamp
  upcoming : s'.upcoming = drawn ++ₛ rest

variable {s s' s1 s2 : Supply} {drawn drawn' : List Nat} {rest : Stream' Nat}

theorem Draws.refl (s : Supply) : s.Draws [] s := ⟨Nat.le_refl _, rfl⟩

theorem Draws.trans (h1 : s.Draws drawn s1) (h2 : s1.Draws drawn' s2) : s.Draws (drawn ++ drawn') s2 where
  stamp := Nat.le_trans h1.stamp h2.stamp
  upcoming := by rw [Stream'.append_append_stream, ← h2.upcoming, h1.upcoming]

theorem Starts.of_append (h : s.Starts (drawn ++ drawn') rest s') : s.Starts drawn (drawn' ++ₛ rest) s' :=
  ⟨h.stamp, by rw [h.upcoming, Stream'.append_append_stream]⟩

/-- What is left when the first ids have been made up begins with the next ones. -/
theorem Starts.next (h : s.Starts [] (drawn ++ₛ rest) s') : s.Starts drawn rest s' := ⟨h.stamp, h.upcoming⟩

/-- On the way from the one supply to the other some ids are made up, and from any supply that begins with
these `P` leads to what comes after them. -/
def Spares (s s' : Supply) (P : Supply → Supply → Prop) : Prop :=
  ∃ drawn, s.Draws drawn s' ∧ ∀ rest t, s.Starts drawn rest t → ∃ t', s'.Starts [] rest t' ∧ P t t'

section Spares

variable {P Q : Supply → Supply → Prop}

theorem Spares.refl (h : ∀ t, P t t) : s.Spares s P := ⟨[], .refl s, fun _ t ht => ⟨t, ht, h t⟩⟩

theorem Spares.trans (h1 : s.Spares s1 P) (h2 : s1.Spares s2 Q) :
    s.Spares s2 fun t t' => ∃ t1, P t t1 ∧ Q t1 t' := by
  obtain ⟨drawn, hdrawn, h1⟩ := h1
  obtain ⟨drawn', hdrawn', h2⟩ := h2
  refine ⟨drawn ++ drawn', hdrawn.trans hdrawn', fun rest t ht => ?_⟩
  obtain ⟨t1, ht1, hP⟩ := h1 _ t ht.of_append
  obtain ⟨t2, ht2, hQ⟩ := h2 rest t1 ht1.next
  exact ⟨t2, ht2, t1, hP, hQ⟩

theorem Spares.imp (h : s.Spares s' P) (himp : ∀ t t', P t t' → Q t t') : s.Spares s' Q := by
  obtain ⟨drawn, hdrawn, h⟩ := h
  refine ⟨drawn, hdrawn, fun rest t ht => ?_⟩
  obtain ⟨t', ht', hP⟩ := h rest t ht
  exact ⟨t', ht', himp t t' hP⟩

theorem Spares.stamp (h : s.Spares s' P) : s.stamp ≤ s'.stamp := by
  obtain ⟨drawn, hdrawn, -⟩ := h
  exact hdrawn.stamp

end Spares

end Supply

namespace Alloc

variable {α β : Type}

/-- The computation does not depend on the ids that it leaves. -/
def Frugal (x : Alloc α) : Prop := ∀ s : Supply, s.Spares (x s).2 fun t t' => x t = ((x s).1, t')

theorem frugal_pure (a : α) : Frugal (pure a) := fun _ => .refl fun _ => rfl

theorem Frugal.bind {x : Alloc α} {f : α → Alloc β} (hx : Frugal x) (hf : ∀ a, Frugal (f a)) :
    Frugal (x >>= f) := by
  intro s
  refine ((hx s).trans (hf (x s).1 (x s).2)).imp fun t t' ⟨t1, hx, hf⟩ => ?_
  show f (x t).1 (x t).2 = _
  rw [hx]
  exact hf

theorem frugal_stamp : Frugal Alloc.stamp := by
  refine fun s => ⟨[], ⟨Nat.le_succ _, rfl⟩, fun rest t h => ?_⟩
  exact ⟨{ t with stamp := t.stamp + 1 }, ⟨congrArg (· + 1) h.stamp, h.upcoming⟩, Prod.ext h.stamp rfl⟩

theorem frugal_mint : Frugal Alloc.mint := by
  intro s
  refine ⟨[s.ids 0], ⟨Nat.le_refl _, ?_⟩, fun rest t h => ⟨(Alloc.mint t).2, ⟨h.stamp, ?_⟩, ?_⟩⟩
  · exact (Stream'.append_stream_head_tail s.upcoming).symm
  · exact congrArg Stream'.tail h.upcoming
  · have hfirst := congrArg Stream'.head h.upcoming
    exact Prod.ext (congrArg NodeId.minted hfirst) rfl

end Alloc

open Alloc

namespace MarkerSet

theorem make_frugal (entries : List Marker) : Frugal (make entries) :=
  frugal_stamp.bind fun _ => frugal_pure _

theorem addIfAbsent_frugal (set : MarkerSet) (m : Marker) : Frugal (set.addIfAbsent m) := by
  unfold addIfAbsent
  split
  · exact frugal_pure set
  · exact make_frugal _

theorem removeSource_frugal (set : MarkerSet) (source : String) : Frugal (set.removeSource source) := by
  unfold removeSource
  split
  · exact make_frugal _
  · exact frugal_pure set

theorem ofList_frugal (ms : List Marker) : Frugal (ofList ms) := by
  unfold ofList
  generalize empty = set
  induction ms generalizing set with
  | nil => exact frugal_pure set
  | cons m ms ih =>
    rw [List.foldlM_cons]
    exact (set.addIfAbsent_frugal m).bind ih

end MarkerSet

namespace Node

theorem make_frugal (id : NodeId) (leading : String) (markers : MarkerSet) (shape : Shape Node) :
    Frugal (make id leading markers shape) :=
  frugal_stamp.bind fun _ => frugal_pure _

theorem withShape_frugal (n : Node) (shape : Shape Node) : Frugal (n.withShape shape) :=
  make_frugal _ _ _ shape

theorem withMarkers_frugal (n : Node) (set : MarkerSet) : Frugal (n.withMarkers set) := by
  unfold withMarkers
  split
  · exact frugal_pure n
  · exact make_frugal _ _ set _

end Node

/-- **Drafts.** -/
theorem Draft.place_frugal (d : Draft) : Frugal d.place := by
  induction d using Labelled.ind with
  | node l shape ih =>
    unfold Draft.place
    rw [Labelled.fold_mk]
    have hkids : Frugal ((shape.map Draft.place).children.mapM id) := by
      rw [Shape.children_map]
      generalize shape.children = kids at ih
      induction kids with
      | nil => exact frugal_pure []
      | cons d kids ihs =>
        rw [List.map_cons, List.mapM_cons]
        refine Frugal.bind (ih d (by simp)) fun c => ?_
        exact (ihs fun d hd => ih d (List.mem_cons_of_mem _ hd)).bind fun cs => frugal_pure (c :: cs)
    refine hkids.bind fun cs => Frugal.bind ?_ fun nodeId => ?_
    · cases (Labelled.mk l shape).label.id with
      | none => exact frugal_mint
      | some given => exact frugal_pure given
    · exact (MarkerSet.ofList_frugal _).bind fun set => Node.make_frugal nodeId _ set _

/-- **Edits.** -/
theorem Edit.apply_frugal (e : Edit) (n : Node) : Frugal (e.apply n) := by
  have helim : ∀ {γ : Type} (o : Option γ) (k : γ → Alloc Node), (∀ a, Frugal (k a)) →
      Frugal (o.elim (pure n) k) := by
    intro γ o k hk
    cases o with
    | none => exact frugal_pure n
    | some a => exact hk a
  cases e with
  | rename _ | renameMethod _ | setModifiers _ | setClassType _ | addInt _ | copy =>
    rw [Edit.apply_eq_reshape (Or.inl rfl)]
    exact helim _ _ n.withShape_frugal
  | dropLast =>
    rw [Edit.apply_eq_reshape (Or.inr rfl)]
    exact helim _ _ n.withShape_frugal
  | setLeading leading => exact Node.make_frugal _ leading _ _
  | lead leading =>
    show Frugal (n.lead leading)
    unfold Node.lead
    split
    · exact frugal_pure n
    · exact Node.make_frugal _ leading _ _
  | mark m => exact (n.label.markers.addIfAbsent_frugal m).bind n.withMarkers_frugal
  | unmark source => exact (n.label.markers.removeSource_frugal source).bind n.withMarkers_frugal
  | hoist i => exact frugal_pure _
  | replace d => exact d.place_frugal
  | append d =>
    rw [Edit.apply_append_eq]
    exact helim _ _ fun ss => d.place_frugal.bind fun added => n.withShape_frugal _

end Refactor
