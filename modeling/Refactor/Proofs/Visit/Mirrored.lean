import Refactor.Proofs.Node.Mirror
import Refactor.Visit.Walk

/-!
# What a visit does not see

A visitor sees content. It sees neither which stamps the objects have, nor the journal, nor whether
someone has asked for the run to stop. So two passes over trees whose objects stand for each other end
with such trees, or both fail in the same way (`runPass_mirrored`).
-/

namespace Refactor

/-- The second context is the first one with objects that stand for those of the first, some other
journal and, where `asked`, a request to stop that it was given beforehand. -/
structure Context.Mirrored {κ : Type} (μ : Mirror κ NodeId) (asked : Bool) (c c' : Context) : Prop where
  source : c'.source = c.source
  cycle : c'.cycle = c.cycle
  hierarchy : c'.hierarchy = c.hierarchy
  cursor : c'.cursor = c.cursor
  deferred : c'.deferred = c.deferred
  queued : c'.queued = c.queued
  visited : c'.visited = c.visited
  supply : μ.Supplies c.session.supply c'.session.supply
  cancelled : c'.session.cancelled = (asked || c.session.cancelled)

namespace Context.Mirrored

variable {κ : Type} {μ : Mirror κ NodeId} {asked : Bool} {c c' : Context} (h : c.Mirrored μ asked c')
include h

theorem place {n n' : Node} (hn : n'.content = n.content) : c'.place n' = c.place n := by
  simp only [Context.place, hn, h.source, h.cycle, h.hierarchy, h.cursor, h.visited, h.queued]

theorem enter (t : Tree) : (c.enter t).Mirrored μ asked (c'.enter t) :=
  { h with
    cursor := by simp only [Context.enter, h.cursor]
    deferred := by simp only [Context.enter, h.deferred]
    visited := by simp only [Context.enter, h.visited] }

theorem left : c'.leave.1 = c.leave.1 := by
  simp only [Context.leave, h.deferred]

theorem leave : c.leave.2.Mirrored μ asked c'.leave.2 :=
  { h with
    cursor := by simp only [Context.leave, h.cursor]
    deferred := by simp only [Context.leave, h.deferred] }

theorem queue (v : Visitor) : (c.queue v).Mirrored μ asked (c'.queue v) :=
  { h with queued := by simp only [Context.queue, h.queued] }

theorem defer (v : Visitor) : (c.defer v).Mirrored μ asked (c'.defer v) := by
  cases hdeferred : c.deferred with
  | nil =>
    rw [Context.defer_of_nil hdeferred, Context.defer_of_nil (h.deferred.trans hdeferred)]
    exact h.queue v
  | cons top rest =>
    rw [Context.defer_of_cons hdeferred, Context.defer_of_cons (h.deferred.trans hdeferred)]
    exact { h with deferred := rfl }

theorem reset : c.reset.Mirrored μ asked c'.reset := { h with cursor := rfl, deferred := rfl }

theorem tell (entries entries' : List Entry) : (c.tell entries).Mirrored μ asked (c'.tell entries') :=
  { h with supply := h.supply, cancelled := h.cancelled }

theorem cancel : c.cancel.Mirrored μ asked c'.cancel :=
  { h with supply := h.supply, cancelled := by simp [Context.cancel] }

theorem unqueue (vs : List Visitor) :
    Context.Mirrored μ asked { c with queued := vs } { c' with queued := vs } :=
  { h with queued := rfl }

end Context.Mirrored

/-- The two computations ended alike, with results that are related. -/
inductive Outcome.Mirrored {α κ : Type} (μ : Mirror κ NodeId) (asked : Bool) (R : α → α → Prop) :
    Outcome α → Outcome α → Prop
  | done {a a' : α} {c c' : Context} : R a a' → c.Mirrored μ asked c' →
      Outcome.Mirrored μ asked R (.done a c) (.done a' c')
  | failed (e : VisitError) {c c' : Context} : c.Mirrored μ asked c' →
      Outcome.Mirrored μ asked R (.failed e c) (.failed e c')
  | exhausted : Outcome.Mirrored μ asked R .exhausted .exhausted

namespace Visit

variable {α β κ : Type} {μ : Mirror κ NodeId} {asked : Bool} {R : α → α → Prop} {Q : β → β → Prop}

/-- The two computations do the same in contexts that mirror each other. -/
def Mirrored (μ : Mirror κ NodeId) (asked : Bool) (R : α → α → Prop) (x x' : Visit α) : Prop :=
  ∀ c c', c.Mirrored μ asked c' → Outcome.Mirrored μ asked R (x c) (x' c')

theorem mirrored_pure {a a' : α} (h : R a a') : Mirrored μ asked R (pure a) (pure a') :=
  fun _ _ hc => .done h hc

theorem mirrored_fail (e : VisitError) : Mirrored μ asked R (fail e) (fail e) :=
  fun _ _ hc => .failed e hc

theorem mirrored_exhausted : Mirrored μ asked R (exhausted : Visit α) exhausted :=
  fun _ _ _ => .exhausted

theorem Mirrored.bind {x x' : Visit α} {f f' : α → Visit β} (hx : Mirrored μ asked R x x')
    (hf : ∀ a a', R a a' → Mirrored μ asked Q (f a) (f' a')) :
    Mirrored μ asked Q (x >>= f) (x' >>= f') := by
  intro c c' hc
  have hout := hx c c' hc
  dsimp only [Bind.bind]
  generalize x c = o at hout ⊢
  generalize x' c' = o' at hout ⊢
  cases hout with
  | done ha hc => exact hf _ _ ha _ _ hc
  | failed e hc => exact .failed e hc
  | exhausted => exact .exhausted

/-- A look at the context, by computations that go on alike. -/
theorem mirrored_get {f f' : Context → Visit β}
    (hf : ∀ c c', c.Mirrored μ asked c' → Mirrored μ asked Q (f c) (f' c')) :
    Mirrored μ asked Q (get >>= f) (get >>= f') :=
  fun c c' hc => hf c c' hc c c' hc

theorem mirrored_modify {g g' : Context → Context} {x x' : Visit β}
    (hg : ∀ c c', c.Mirrored μ asked c' → (g c).Mirrored μ asked (g' c'))
    (hx : Mirrored μ asked Q x x') :
    Mirrored μ asked Q (modify g >>= fun _ => x) (modify g' >>= fun _ => x') :=
  fun c c' hc => hx _ _ (hg c c' hc)

theorem mirrored_tell (entries entries' : List Entry) {x x' : Visit β} (hx : Mirrored μ asked Q x x') :
    Mirrored μ asked Q (tell entries >>= fun _ => x) (tell entries' >>= fun _ => x') :=
  mirrored_modify (fun _ _ h => h.tell entries entries') hx

theorem mirrored_alloc {x x' : Alloc α} (h : μ.Makes R x x') : Mirrored μ asked R (alloc x) (alloc x') := by
  intro c c' hc
  obtain ⟨hR, hsupply⟩ := h _ _ hc.supply
  exact .done hR { hc with supply := hsupply, cancelled := hc.cancelled }

theorem mirrored_leaving {x x' : Visit α} (hx : Mirrored μ asked R x x') :
    Mirrored μ asked (fun p p' => R p.1 p'.1 ∧ p'.2 = p.2) (leaving x) (leaving x') := by
  intro c c' hc
  have hout := hx c c' hc
  unfold leaving
  generalize x c = o at hout ⊢
  generalize x' c' = o' at hout ⊢
  cases hout with
  | done ha hc => exact .done ⟨ha, hc.left⟩ hc.leave
  | failed e hc => exact .failed e hc.leave
  | exhausted => exact .exhausted

end Visit

open Visit

/-! ### From children to passes -/

section Passes

variable {κ : Type} {μ : Mirror κ NodeId} {asked : Bool} {visitChild visitChild' : Node → Visit Node}
  (hvisit : ∀ n n', μ.Nodes n n' → Mirrored μ asked μ.Nodes (visitChild n) (visitChild' n'))
include hvisit

theorem visitChildren_mirrored (parent : Kind) {kids kids' : List (Slot × Node)}
    (h : List.Forall₂ (fun p p' => p'.1 = p.1 ∧ μ.Nodes p.2 p'.2) kids kids') :
    Mirrored μ asked (fun cs cs' => cs.length = kids.length ∧ List.Forall₂ μ.Nodes cs cs')
      (visitChildren visitChild parent kids) (visitChildren visitChild' parent kids') := by
  induction h with
  | nil => exact mirrored_pure ⟨rfl, .nil⟩
  | @cons p p' kids kids' hp _ ih =>
    obtain ⟨slot, child⟩ := p
    obtain ⟨slot', child'⟩ := p'
    obtain ⟨rfl, hchild⟩ := hp
    refine (hvisit child child' hchild).bind fun visited visited' hvisited => ?_
    rw [hchild.same_iff hvisited, hvisited.kind]
    split
    · refine ih.bind fun others others' hothers => mirrored_pure ⟨?_, .cons hvisited hothers.2⟩
      rw [List.length_cons, List.length_cons, hothers.1]
    · exact mirrored_fail _

theorem walkAs_mirrored (kind : Kind) {n n' : Node} (hn : μ.Nodes n n') :
    Mirrored μ asked μ.Nodes (walkAs visitChild kind n) (walkAs visitChild' kind n') := by
  have hwalk : Mirrored μ asked μ.Nodes (walkNode visitChild n) (walkNode visitChild' n') := by
    unfold walkNode
    rw [hn.kind]
    refine (visitChildren_mirrored hvisit n.kind hn.slotted).bind fun cs cs' hcs => ?_
    simp only [Mirror.stamps_eq_iff hcs.2 hn.children]
    split
    · exact mirrored_pure hn
    · refine mirrored_alloc (Mirror.makes_withShape hn ?_)
      refine Shape.map_withChildren_congr hn.shape (Mirror.map_eq_iff_forall₂.2 hcs.2) ?_
      rw [hcs.1, Shape.length_slotted]
  unfold walkAs
  rw [hn.kind]
  split
  · exact mirrored_pure hn
  · split
    · exact hwalk
    · exact mirrored_fail _

omit hvisit in
theorem runDeferred_mirrored {visit : Visitor → Node → Visit Node}
    (hvisit : ∀ v n n', μ.Nodes n n' → Mirrored μ asked μ.Nodes (visit v n) (visit v n'))
    (vs : List Visitor) : ∀ n n', μ.Nodes n n' →
      Mirrored μ asked μ.Nodes (runDeferred visit vs n) (runDeferred visit vs n') := by
  induction vs with
  | nil => exact fun n n' hn => mirrored_pure hn
  | cons v vs ih => exact fun n n' hn => mirrored_tell _ _ ((hvisit v n n' hn).bind ih)

variable (hμ : ∀ i, μ.ids i = i)
include hμ

theorem Script.run_mirrored (s : Script Visitor) : ∀ n n', μ.Nodes n n' →
    Mirrored μ asked μ.Nodes (s.run visitChild n) (s.run visitChild' n') := by
  induction s with
  | done => exact fun n n' hn => mirrored_pure hn
  | fail e => exact fun n n' _ => mirrored_fail e
  | look next ih =>
    refine fun n n' hn => mirrored_get fun c c' hc => ?_
    rw [hc.place (hn.content hμ)]
    exact ih (c.place n) n n' hn
  | walk kind next ih => exact fun n n' hn => (walkAs_mirrored hvisit kind hn).bind ih
  | edit e next ih => exact fun n n' hn => (mirrored_alloc (Mirror.makes_apply e hn)).bind ih
  | tell entries next ih => exact fun n n' hn => mirrored_tell entries entries (ih n n' hn)
  | defer v next ih => exact fun n n' hn => mirrored_modify (fun _ _ h => h.defer v) (ih n n' hn)
  | queue v next ih => exact fun n n' hn => mirrored_modify (fun _ _ h => h.queue v) (ih n n' hn)
  | cancel next ih => exact fun n n' hn => mirrored_modify (fun _ _ h => h.cancel) (ih n n' hn)

omit hvisit

theorem visit_mirrored (fuel : Nat) : ∀ (v : Visitor) (n n' : Node), μ.Nodes n n' →
    Mirrored μ asked μ.Nodes (visit fuel v n) (visit fuel v n') := by
  induction fuel with
  | zero => exact fun v n n' _ => mirrored_exhausted
  | succ fuel ih =>
    intro v n n' hn
    have hcontent := hn.content hμ
    cases v with
    | gated condition inner =>
      refine mirrored_get fun c c' hc => ?_
      rw [hcontent, hc.hierarchy]
      refine mirrored_tell _ _ ?_
      show Mirrored μ asked μ.Nodes (if _ then _ else _) (if _ then _ else _)
      split
      · exact ih inner n n' hn
      · exact mirrored_tell _ _ (mirrored_pure hn)
    | plain name script =>
      refine mirrored_modify (fun _ _ h => hcontent ▸ h.enter n.content) ?_
      refine (mirrored_leaving (script.run_mirrored (ih (.plain name script)) hμ n n' hn)).bind
        fun ⟨result, deferred⟩ ⟨result', deferred'⟩ ⟨hresult, hdeferred⟩ => ?_
      obtain rfl : deferred' = deferred := hdeferred
      exact runDeferred_mirrored ih deferred' result result' hresult

theorem drainQueue_mirrored (fuel rounds : Nat) : ∀ n n', μ.Nodes n n' →
    Mirrored μ asked μ.Nodes (drainQueue fuel rounds n) (drainQueue fuel rounds n') := by
  induction rounds with
  | zero =>
    refine fun n n' hn => mirrored_get fun c c' hc => ?_
    rw [hc.queued]
    split
    · exact mirrored_pure hn
    · exact mirrored_exhausted
  | succ rounds ih =>
    refine fun n n' hn => mirrored_get fun c c' hc => ?_
    rw [hc.queued]
    split
    · exact mirrored_pure hn
    · refine mirrored_modify (fun _ _ h => h.unqueue _) (mirrored_tell _ _ ?_)
      refine mirrored_modify (fun _ _ h => h.reset) ?_
      exact (visit_mirrored hμ fuel _ n n' hn).bind ih

/-- **Two passes** over trees whose objects stand for each other. -/
theorem runPass_mirrored (fuel : Nat) (v : Visitor) {n n' : Node} (hn : μ.Nodes n n') :
    Mirrored μ asked μ.Nodes (runPass fuel v n) (runPass fuel v n') :=
  mirrored_modify (fun _ _ h => h.reset)
    ((visit_mirrored hμ fuel v n n' hn).bind (drainQueue_mirrored hμ fuel fuel))

end Passes

end Refactor
