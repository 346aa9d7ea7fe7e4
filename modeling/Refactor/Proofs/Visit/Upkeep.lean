import Refactor.Proofs.Visit.Edits
import Refactor.Visit.Walk

/-!
# What visitors keep up

Let some property of trees be kept up by a kind of edits and by the rebuilding of a node over children that
its slots accept (`Maintains`). Then it is kept up by every pass of a visitor that makes no other edits and
leaves no visitors that do (`runPass_upholds`), whatever it looks at, walks, puts in and leaves for later.

The slots are looked at only for children that came back as other objects, and other objects are told by
their stamps. So what is carried along with the property is that all that is made stems from the node at
hand (`Node.Stems`).
-/

namespace Refactor

/-! ### Visitors within bounds -/

/-- The property holds of all that is seen. -/
structure Place.Has (Q : Tree → Prop) (p : Place) : Prop where
  current : Q p.current
  above : ∀ t ∈ p.cursor.path, Q t

/-- As long as `Q` holds of all it sees, the script makes only edits of `E` and leaves only visitors
of `V`. -/
inductive Script.Within (Q : Tree → Prop) (E : Edit → Prop) (V : Visitor → Prop) :
    Script Visitor → Prop
  | done : Within Q E V .done
  | fail (error : VisitError) : Within Q E V (.fail error)
  | look {next : Place → Script Visitor} : (∀ p : Place, p.Has Q → Within Q E V (next p)) →
      Within Q E V (.look next)
  | walk (kind : Kind) {next : Script Visitor} : Within Q E V next → Within Q E V (.walk kind next)
  | edit {e : Edit} {next : Script Visitor} : E e → Within Q E V next → Within Q E V (.edit e next)
  | tell (entries : List Entry) {next : Script Visitor} : Within Q E V next →
      Within Q E V (.tell entries next)
  | defer {v : Visitor} {next : Script Visitor} : V v → Within Q E V next →
      Within Q E V (.defer v next)
  | queue {v : Visitor} {next : Script Visitor} : V v → Within Q E V next →
      Within Q E V (.queue v next)
  | cancel {next : Script Visitor} : Within Q E V next → Within Q E V (.cancel next)

/-- So does the visitor, and so do the visitors it leaves for later, and those that they leave. -/
inductive Visitor.Within (Q : Tree → Prop) (E : Edit → Prop) : Visitor → Prop
  | plain (name : String) {s : Script Visitor} : s.Within Q E (Visitor.Within Q E) →
      Within Q E (.plain name s)
  | gated (condition : Precondition) {inner : Visitor} : Within Q E inner →
      Within Q E (.gated condition inner)

theorem Visitor.Within.guarded {Q : Tree → Prop} {E : Edit → Prop} {v : Visitor} (h : v.Within Q E)
    (condition : Precondition) : (v.guarded condition).Within Q E := by
  unfold Visitor.guarded
  split
  · exact h
  · exact .gated _ h

/-- The property goes down the tree, and is kept up by the edits of `E` and by the walk over the
children. -/
structure Maintains (Q : Tree → Prop) (E : Edit → Prop) : Prop where
  child : ∀ n c : Node, c ∈ n.children → Q n.content → Q c.content
  edit : ∀ (e : Edit) (n : Node) (s : Supply), E e → n.Predates s.stamp → Q n.content →
    Q (Node.content (e.apply n s).1)
  rebuild : ∀ (n : Node) (cs : List Node) (s : Supply), Q n.content →
    List.Forall₂ (fun p c => Q (Node.content c) ∧ (c = p.2 ∨ p.1.accepts c.kind = true))
      n.shape.slotted cs → Q (Node.content (n.withShape (n.shape.withChildren cs) s).1)

/-- What holds of all trees is kept up by all edits. -/
theorem maintains_true : Maintains (fun _ => True) fun _ => True :=
  ⟨fun _ _ _ _ => trivial, fun _ _ _ _ _ _ => trivial, fun _ _ _ _ _ => trivial⟩

mutual
theorem Visitor.within_any (Q : Tree → Prop) : ∀ v : Visitor, v.Within Q fun _ => True
  | .plain name s => .plain name (Script.within_any Q s)
  | .gated condition inner => .gated condition (Visitor.within_any Q inner)
theorem Script.within_any (Q : Tree → Prop) :
    ∀ s : Script Visitor, s.Within Q (fun _ => True) (Visitor.Within Q fun _ => True)
  | .done => .done
  | .fail error => .fail error
  | .look next => .look fun p _ => Script.within_any Q (next p)
  | .walk kind next => .walk kind (Script.within_any Q next)
  | .edit _ next => .edit trivial (Script.within_any Q next)
  | .tell entries next => .tell entries (Script.within_any Q next)
  | .defer v next => .defer (Visitor.within_any Q v) (Script.within_any Q next)
  | .queue v next => .queue (Visitor.within_any Q v) (Script.within_any Q next)
  | .cancel next => .cancel (Script.within_any Q next)
end

/-! ### Contexts -/

/-- The property holds of all nodes above, and all visitors that are left for later keep within bounds. -/
structure Context.Sound (Q : Tree → Prop) (E : Edit → Prop) (c : Context) : Prop where
  above : ∀ t ∈ c.cursor.path, Q t
  deferred : ∀ vs ∈ c.deferred, ∀ v ∈ vs, v.Within Q E
  queued : ∀ v ∈ c.queued, v.Within Q E

namespace Context.Sound

variable {Q : Tree → Prop} {E : Edit → Prop} {c : Context} (h : c.Sound Q E)
include h

theorem place {n : Node} (hn : Q n.content) : (c.place n).Has Q := ⟨hn, h.above⟩

theorem enter {t : Tree} (ht : Q t) : (c.enter t).Sound Q E where
  above := List.forall_mem_cons.2 ⟨ht, h.above⟩
  deferred := List.forall_mem_cons.2 ⟨by simp, h.deferred⟩
  queued := h.queued

theorem leave : c.leave.2.Sound Q E where
  above t ht := h.above t (Cursor.mem_path_of_parent ht)
  deferred vs hvs := h.deferred vs (List.mem_of_mem_tail hvs)
  queued := h.queued

theorem left : ∀ v ∈ c.leave.1, v.Within Q E := by
  unfold Context.leave
  cases hdeferred : c.deferred with
  | nil => simp
  | cons top rest => exact h.deferred top (by simp [hdeferred])

theorem queue {v : Visitor} (hv : v.Within Q E) : (c.queue v).Sound Q E :=
  { h with
    queued := by
      intro w hw
      rcases List.mem_append.1 hw with hw | hw
      · exact h.queued w hw
      · rwa [List.mem_singleton.1 hw] }

theorem defer {v : Visitor} (hv : v.Within Q E) : (c.defer v).Sound Q E := by
  cases hdeferred : c.deferred with
  | nil =>
    rw [Context.defer_of_nil hdeferred]
    exact h.queue hv
  | cons top rest =>
    rw [Context.defer_of_cons hdeferred]
    have hall := h.deferred
    rw [hdeferred, List.forall_mem_cons] at hall
    refine { h with deferred := List.forall_mem_cons.2 ⟨fun w hw => ?_, hall.2⟩ }
    rcases List.mem_append.1 hw with hw | hw
    · exact hall.1 w hw
    · rwa [List.mem_singleton.1 hw]

theorem reset : c.reset.Sound Q E :=
  { h with above := by simp [Context.reset], deferred := by simp [Context.reset] }

theorem unqueue {vs : List Visitor} (hvs : ∀ v ∈ vs, v.Within Q E) :
    Context.Sound Q E { c with queued := vs } :=
  { h with queued := hvs }

end Context.Sound

/-! ### Computations -/

/-- What is to be of the node `m` that has come of `n`, and of the context it has come about in. -/
structure Upkept (Q : Tree → Prop) (E : Edit → Prop) (n : Node) (b : Nat) (m : Node) (c : Context) :
    Prop where
  sound : c.Sound Q E
  bound : b ≤ c.session.supply.stamp
  made : m.Predates c.session.supply.stamp
  stems : Node.Stems b n m
  holds : Q m.content

theorem Upkept.trans {Q : Tree → Prop} {E : Edit → Prop} {n m k : Node} {b : Nat} {c c' : Context}
    (h1 : Upkept Q E n b m c) (h2 : Upkept Q E m c.session.supply.stamp k c') : Upkept Q E n b k c' :=
  ⟨h2.sound, Nat.le_trans h1.bound h2.bound, h2.made, h1.stems.trans (h2.stems.mono h1.bound), h2.holds⟩

namespace Visit

variable {α β : Type}

theorem bind_eq_done {x : Visit α} {f : α → Visit β} {b : β} {c c' : Context}
    (h : (x >>= f) c = .done b c') : ∃ a c1, x c = .done a c1 ∧ f a c1 = .done b c' := by
  dsimp only [bind] at h
  cases hx : x c with
  | done a c1 =>
    rw [hx] at h
    exact ⟨a, c1, rfl, h⟩
  | failed _ _ | exhausted =>
    rw [hx] at h
    cases h

/-- If the computation comes to a node, the property is kept up on the way there from `n`. -/
def Upholds (Q : Tree → Prop) (E : Edit → Prop) (n : Node) (x : Visit Node) : Prop :=
  ∀ (m : Node) (c c' : Context), c.Sound Q E → n.Predates c.session.supply.stamp → Q n.content →
    x c = .done m c' → Upkept Q E n c.session.supply.stamp m c'

section Upholds

variable {Q : Tree → Prop} {E : Edit → Prop} {n : Node} {x : Visit Node}

theorem upholds_pure (n : Node) : (pure n : Visit Node).Upholds Q E n := by
  intro m c c' hc hn hQ h
  cases h
  exact ⟨hc, Nat.le_refl _, hn, Node.Stems.refl _ n, hQ⟩

theorem upholds_fail (e : VisitError) : (fail e : Visit Node).Upholds Q E n := by
  intro m c c' _ _ _ h
  cases h

theorem upholds_exhausted : (exhausted : Visit Node).Upholds Q E n := by
  intro m c c' _ _ _ h
  cases h

theorem Upholds.bind {f : Node → Visit Node} (hx : x.Upholds Q E n)
    (hf : ∀ m, (f m).Upholds Q E m) : (x >>= f).Upholds Q E n := by
  intro k c c2 hc hn hQ h
  obtain ⟨m, c1, hm, hk⟩ := bind_eq_done h
  have h1 := hx m c c1 hc hn hQ hm
  exact h1.trans (hf m k c1 c2 h1.sound h1.made h1.holds hk)

theorem upholds_get {f : Context → Visit Node}
    (hf : ∀ c, c.Sound Q E → Q n.content → (f c).Upholds Q E n) : (get >>= f).Upholds Q E n :=
  fun m c c' hc hn hQ h => hf c hc hQ m c c' hc hn hQ h

theorem upholds_modify {g : Context → Context} (hg : ∀ c, c.Sound Q E → (g c).Sound Q E)
    (hsupply : ∀ c, (g c).session.supply = c.session.supply) (hx : x.Upholds Q E n) :
    (modify g >>= fun _ => x).Upholds Q E n := by
  intro m c c' hc hn hQ h
  have hkept := hx m (g c) c' (hg c hc) (by rwa [hsupply]) hQ h
  rwa [hsupply] at hkept

theorem upholds_tell (entries : List Entry) (hx : x.Upholds Q E n) :
    (tell entries >>= fun _ => x).Upholds Q E n :=
  upholds_modify (fun _ hc => { hc with }) (fun _ => rfl) hx

theorem upholds_traced (y : Traced α) {f : α → Visit Node} (hf : ∀ a, (f a).Upholds Q E n) :
    (traced y >>= f).Upholds Q E n := by
  show (tell y.entries >>= fun _ => f y.value).Upholds Q E n
  exact upholds_tell y.entries (hf y.value)

end Upholds

end Visit

open Visit

/-! ### From children to passes -/

section Walk

variable {Q : Tree → Prop} {E : Edit → Prop}

/-- What is to come of the child in a slot, between two stamps. -/
structure Renewed (Q : Tree → Prop) (b b' : Nat) (p : Slot × Node) (m : Node) : Prop where
  made : m.Predates b'
  stems : Node.Stems b p.2 m
  holds : Q m.content
  fits : m = p.2 ∨ p.1.accepts m.kind = true

variable {visitChild : Node → Visit Node} (hvisit : ∀ n, (visitChild n).Upholds Q E n)
include hvisit

theorem visitChildren_renews (parent : Kind) (b : Nat) (kids : List (Slot × Node)) :
    ∀ (cs : List Node) (c c' : Context), c.Sound Q E → b ≤ c.session.supply.stamp →
      (∀ p ∈ kids, p.2.Predates b ∧ Q p.2.content) →
      visitChildren visitChild parent kids c = .done cs c' →
      c'.Sound Q E ∧ c.session.supply.stamp ≤ c'.session.supply.stamp ∧
        List.Forall₂ (Renewed Q b c'.session.supply.stamp) kids cs := by
  induction kids with
  | nil =>
    intro cs c c' hc hb _ h
    cases h
    exact ⟨hc, Nat.le_refl _, .nil⟩
  | cons p rest ih =>
    obtain ⟨slot, child⟩ := p
    intro cs c c' hc hb hkids h
    obtain ⟨hchild, hrest⟩ := List.forall_mem_cons.1 hkids
    obtain ⟨m, c1, hm, h⟩ := bind_eq_done h
    have hkept := hvisit child m c c1 hc (hchild.1.mono hb) hchild.2 hm
    have hstems : Node.Stems b child m := hkept.stems.mono hb
    by_cases haccepted : (m.same child || slot.accepts m.kind) = true
    · rw [if_pos haccepted] at h
      obtain ⟨others, c2, hothers, h⟩ := bind_eq_done h
      cases h
      obtain ⟨hc2, hsupply, hrenewed⟩ :=
        ih others c1 _ hkept.sound (Nat.le_trans hb hkept.bound) hrest hothers
      refine ⟨hc2, Nat.le_trans hkept.bound hsupply,
        .cons ⟨hkept.made.mono hsupply, hstems, hkept.holds, ?_⟩ hrenewed⟩
      -- A child with the stamp it had is the child, so its slot need not be asked.
      rcases Bool.or_eq_true_iff.1 haccepted with hsame | haccepts
      · exact Or.inl (hstems.eq_of_stamp hchild.1 (by simpa [Node.same] using hsame))
      · exact Or.inr haccepts
    · rw [if_neg haccepted] at h
      cases h

variable (hQ : Maintains Q E)
include hQ

theorem walkNode_upholds (n : Node) : (walkNode visitChild n).Upholds Q E n := by
  intro m c c' hc hn hholds h
  have hkids : ∀ p ∈ n.shape.slotted,
      Node.Predates p.2 c.session.supply.stamp ∧ Q (Node.content p.2) := by
    intro p hp
    have hp : p.2 ∈ n.children := Shape.mem_children_of_slotted hp
    exact ⟨hn.child hp, hQ.child n p.2 hp hholds⟩
  obtain ⟨cs, c1, hcs, h⟩ := bind_eq_done h
  obtain ⟨hc1, hsupply, hrenewed⟩ :=
    visitChildren_renews hvisit n.kind c.session.supply.stamp _ cs c c1 hc (Nat.le_refl _) hkids hcs
  split at h
  · cases h
    exact ⟨hc1, hsupply, hn.mono hsupply, Node.Stems.refl _ n, hholds⟩
  · cases h
    have hlen : cs.length = n.shape.children.length := by
      rw [← Shape.length_slotted, hrenewed.length_eq]
    have hnew := Node.grows_withShape (n.shape.withChildren cs) hn hsupply fun k hk => by
      rw [Shape.children_withChildren hlen] at hk
      obtain ⟨p, hp, hpk⟩ := exists_left_of_forall₂ hrenewed k hk
      exact ⟨hpk.made, (Node.stems_child _ (Shape.mem_children_of_slotted hp)).trans hpk.stems⟩
    refine ⟨{ hc1 with }, hnew.1, hnew.2.1, hnew.2.2, hQ.rebuild n cs _ hholds ?_⟩
    exact hrenewed.imp fun p k hk => ⟨hk.holds, hk.fits⟩

theorem walkAs_upholds (kind : Kind) (n : Node) : (walkAs visitChild kind n).Upholds Q E n := by
  unfold walkAs
  split
  · exact upholds_pure n
  · split
    · exact walkNode_upholds hvisit hQ n
    · exact upholds_fail _

omit hvisit in
theorem edit_upholds {e : Edit} (he : E e) (n : Node) : (alloc (e.apply n)).Upholds Q E n := by
  intro m c c' hc hn hholds h
  cases h
  obtain ⟨hsupply, hmade, hstems⟩ := (e.apply_makes hn).grows hn
  exact ⟨{ hc with }, hsupply, hmade, hstems, hQ.edit e n _ he hn hholds⟩

theorem Script.run_upholds {s : Script Visitor} (hs : s.Within Q E (Visitor.Within Q E)) :
    ∀ n, (s.run visitChild n).Upholds Q E n := by
  induction hs with
  | done => exact fun n => upholds_pure n
  | fail error => exact fun n => upholds_fail error
  | look _ ih => exact fun n => upholds_get fun c hc hn => ih (c.place n) (hc.place hn) n
  | walk kind _ ih => exact fun n => (walkAs_upholds hvisit hQ kind n).bind ih
  | edit he _ ih => exact fun n => (edit_upholds hQ he n).bind ih
  | tell entries _ ih => exact fun n => upholds_tell entries (ih n)
  | defer hv _ ih =>
    refine fun n => upholds_modify (fun c hc => hc.defer hv) (fun c => ?_) (ih n)
    unfold Context.defer
    split <;> rfl
  | queue hv _ ih => exact fun n => upholds_modify (fun c hc => hc.queue hv) (fun _ => rfl) (ih n)
  | cancel _ ih => exact fun n => upholds_modify (fun _ hc => { hc with }) (fun _ => rfl) (ih n)

end Walk

section Passes

variable {Q : Tree → Prop} {E : Edit → Prop}

theorem runDeferred_upholds {visit : Visitor → Node → Visit Node}
    (hvisit : ∀ v n, v.Within Q E → (visit v n).Upholds Q E n) {vs : List Visitor}
    (hvs : ∀ v ∈ vs, v.Within Q E) : ∀ n, (runDeferred visit vs n).Upholds Q E n := by
  induction vs with
  | nil => exact fun n => upholds_pure n
  | cons v vs ih =>
    obtain ⟨hv, hvs⟩ := List.forall_mem_cons.1 hvs
    exact fun n => upholds_tell _ ((hvisit v n hv).bind (ih hvs))

variable (hQ : Maintains Q E)
include hQ

/-- **A visit keeps the property up.** The induction is on the fuel, which covers the children and the
visitors left at the node alike. -/
theorem visit_upholds (fuel : Nat) :
    ∀ (v : Visitor) (n : Node), v.Within Q E → (visit fuel v n).Upholds Q E n := by
  induction fuel with
  | zero => exact fun v n _ => upholds_exhausted
  | succ fuel ih =>
    intro v n hv
    cases hv with
    | gated condition hinner =>
      refine upholds_get fun c _ _ => upholds_traced _ fun answer => ?_
      split
      · exact ih _ n hinner
      · exact upholds_tell _ (upholds_pure n)
    | @plain name script hs =>
      intro m c c' hc hn hholds h
      have hscript := Script.run_upholds (fun k => ih (.plain name script) k (.plain name hs)) hQ hs n
      obtain ⟨_, c1, hc1, h⟩ := bind_eq_done h
      cases hc1
      obtain ⟨⟨result, left⟩, c2, hleaving, h⟩ := bind_eq_done h
      -- The script first, then the visitors that were left at the node.
      unfold leaving at hleaving
      cases hrun : script.run (visit fuel (.plain name script)) n (c.enter n.content) with
      | done k c3 =>
        rw [hrun] at hleaving
        cases hleaving
        have hkept := hscript result _ c3 (hc.enter hholds) hn hholds hrun
        have hrest := runDeferred_upholds (fun v n hv => ih v n hv) hkept.sound.left result m _ c'
          hkept.sound.leave hkept.made hkept.holds h
        exact hkept.trans hrest
      | failed _ _ | exhausted =>
        rw [hrun] at hleaving
        cases hleaving

theorem drainQueue_upholds (fuel rounds : Nat) :
    ∀ n, (drainQueue fuel rounds n).Upholds Q E n := by
  induction rounds with
  | zero =>
    refine fun n => upholds_get fun c _ _ => ?_
    split
    · exact upholds_pure n
    · exact upholds_exhausted
  | succ rounds ih =>
    refine fun n => upholds_get fun c hc _ => ?_
    cases hqueued : c.queued with
    | nil => exact upholds_pure n
    | cons v vs =>
      have hwithin := hc.queued
      rw [hqueued, List.forall_mem_cons] at hwithin
      refine upholds_modify (fun _ hc => hc.unqueue hwithin.2) (fun _ => rfl) ?_
      refine upholds_tell _ (upholds_modify (fun _ hc => hc.reset) (fun _ => rfl) ?_)
      exact (visit_upholds hQ fuel v n hwithin.1).bind ih

/-- **A pass keeps the property up**, the visitors it leaves for the whole tree included. -/
theorem runPass_upholds (fuel : Nat) {v : Visitor} (hv : v.Within Q E) (n : Node) :
    (runPass fuel v n).Upholds Q E n :=
  upholds_modify (fun _ hc => hc.reset) (fun _ => rfl)
    ((visit_upholds hQ fuel v n hv).bind (drainQueue_upholds hQ fuel fuel))

end Passes

end Refactor
