import Refactor.Proofs.Node.Supply
import Refactor.Proofs.Visit.Balance

/-!
# What visits take from the supply

A visitor sees none of the ids that are yet to be made up. So a visit that ends, with a node or with an
error, has made up some of them, and where the supply begins with these and goes on in another way, it ends
in the same way and leaves what comes after them (`runPass_frugal`).
-/

namespace Refactor

/-- The session with another supply. -/
def Session.resupplied (session : Session) (s : Supply) : Session := { session with supply := s }

/-- The context with another supply. -/
def Context.resupplied (c : Context) (s : Supply) : Context := { c with session := c.session.resupplied s }

/-- The same end, with another supply left. -/
def Outcome.resupplied {α : Type} (o : Outcome α) (s : Supply) : Outcome α :=
  match o with
  | .done a c => .done a (c.resupplied s)
  | .failed e c => .failed e (c.resupplied s)
  | .exhausted => .exhausted

namespace Visit

variable {α β : Type}

/-- The computation does not depend on the ids that it leaves. -/
def Frugal (x : Visit α) : Prop :=
  ∀ c c', (x c).context? = some c' → c.session.supply.Spares c'.session.supply fun s s' =>
    x (c.resupplied s) = (x c).resupplied s'

theorem frugal_pure (a : α) : Frugal (pure a) := by
  intro c c' h
  cases h
  exact .refl fun _ => rfl

theorem frugal_fail (e : VisitError) : Frugal (fail e : Visit α) := by
  intro c c' h
  cases h
  exact .refl fun _ => rfl

theorem frugal_exhausted : Frugal (exhausted : Visit α) := by
  intro c c' h
  cases h

theorem Frugal.bind {x : Visit α} {f : α → Visit β} (hx : Frugal x) (hf : ∀ a, Frugal (f a)) :
    Frugal (x >>= f) := by
  intro c c' h
  dsimp only [Bind.bind] at h ⊢
  cases hdone : x c with
  | done a c1 =>
    rw [hdone] at h
    refine ((hx c c1 (by rw [hdone]; rfl)).trans (hf a c1 c' h)).imp fun s s' ⟨s1, hx1, hf1⟩ => ?_
    rw [hx1, hdone]
    exact hf1
  | failed e c1 =>
    rw [hdone] at h
    refine (hx c c' (by rw [hdone]; exact h)).imp fun s s' hx1 => ?_
    rw [hx1, hdone]
    rfl
  | exhausted =>
    rw [hdone] at h
    cases h

/-- A look at what is not the supply. -/
theorem frugal_get_bind {f : Context → Visit β} (hblind : ∀ c s, f (c.resupplied s) = f c)
    (hf : ∀ c, Frugal (f c)) : Frugal (get >>= f) := by
  intro c c' h
  refine (hf c c c' h).imp fun s s' heq => ?_
  show f (c.resupplied s) (c.resupplied s) = _
  rw [hblind]
  exact heq

/-- A change of what is not the supply. -/
theorem frugal_modify_bind {g : Context → Context} {x : Visit β}
    (hsupply : ∀ c, (g c).session.supply = c.session.supply)
    (hg : ∀ c s, g (c.resupplied s) = (g c).resupplied s) (hx : Frugal x) :
    Frugal (modify g >>= fun _ => x) := by
  intro c c' h
  have hx := hx (g c) c' h
  rw [hsupply] at hx
  refine hx.imp fun s s' heq => ?_
  show x (g (c.resupplied s)) = _
  rw [hg]
  exact heq

theorem frugal_tell_bind (entries : List Entry) {x : Visit β} (hx : Frugal x) :
    Frugal (tell entries >>= fun _ => x) :=
  frugal_modify_bind (fun _ => rfl) (fun _ _ => rfl) hx

theorem frugal_alloc {x : Alloc α} (hx : Alloc.Frugal x) : Frugal (alloc x) := by
  intro c c' h
  cases h
  refine (hx c.session.supply).imp fun s s' heq => ?_
  show Outcome.done (x s).1 (c.resupplied (x s).2) = _
  rw [heq]
  rfl

theorem frugal_leaving {x : Visit α} (hx : Frugal x) : Frugal (leaving x) := by
  intro c c' h
  unfold leaving at h ⊢
  cases hout : x c with
  | done _ c1 | failed _ c1 =>
    rw [hout] at h
    cases h
    refine (hx c c1 (by rw [hout]; rfl)).imp fun s s' hx1 => ?_
    rw [hx1, hout]
    rfl
  | exhausted =>
    rw [hout] at h
    cases h

end Visit

open Visit

/-! ### From children to passes -/

section Walk

variable {visitChild : Node → Visit Node} (hvisit : ∀ n, Frugal (visitChild n))
include hvisit

theorem visitChildren_frugal (parent : Kind) (kids : List (Slot × Node)) :
    Frugal (visitChildren visitChild parent kids) := by
  induction kids with
  | nil => exact frugal_pure []
  | cons p rest ih =>
    obtain ⟨slot, child⟩ := p
    refine (hvisit child).bind fun visited => ?_
    split
    · exact ih.bind fun others => frugal_pure (visited :: others)
    · exact frugal_fail _

theorem walkAs_frugal (kind : Kind) (n : Node) : Frugal (walkAs visitChild kind n) := by
  have hwalk : Frugal (walkNode visitChild n) := by
    refine (visitChildren_frugal hvisit n.kind n.shape.slotted).bind fun visited => ?_
    split
    · exact frugal_pure n
    · exact frugal_alloc (n.withShape_frugal _)
  unfold walkAs
  split
  · exact frugal_pure n
  · split
    · exact hwalk
    · exact frugal_fail _

theorem Script.run_frugal (s : Script Visitor) : ∀ n, Frugal (s.run visitChild n) := by
  induction s with
  | done => exact fun n => frugal_pure n
  | fail e => exact fun n => frugal_fail e
  | look next ih => exact fun n => frugal_get_bind (fun _ _ => rfl) fun c => ih (c.place n) n
  | walk kind next ih => exact fun n => (walkAs_frugal hvisit kind n).bind ih
  | edit e next ih => exact fun n => (frugal_alloc (e.apply_frugal n)).bind ih
  | tell entries next ih => exact fun n => frugal_tell_bind entries (ih n)
  | defer v next ih =>
    refine fun n => frugal_modify_bind (fun c => ?_) (fun c s => ?_) (ih n)
    · unfold Context.defer
      cases c.deferred <;> rfl
    · cases hdeferred : c.deferred <;> simp [Context.defer, Context.resupplied, hdeferred]
  | queue v next ih => exact fun n => frugal_modify_bind (fun _ => rfl) (fun _ _ => rfl) (ih n)
  | cancel next ih => exact fun n => frugal_modify_bind (fun _ => rfl) (fun _ _ => rfl) (ih n)

end Walk

theorem runDeferred_frugal {visit : Visitor → Node → Visit Node} (hvisit : ∀ v n, Frugal (visit v n))
    (vs : List Visitor) : ∀ n, Frugal (runDeferred visit vs n) := by
  induction vs with
  | nil => exact fun n => frugal_pure n
  | cons v vs ih => exact fun n => frugal_tell_bind _ ((hvisit v n).bind ih)

theorem visit_frugal (fuel : Nat) : ∀ (v : Visitor) (n : Node), Frugal (visit fuel v n) := by
  induction fuel with
  | zero => exact fun v n => frugal_exhausted
  | succ fuel ih =>
    intro v n
    cases v with
    | gated condition inner =>
      refine frugal_get_bind (fun _ _ => rfl) fun c =>
        (frugal_tell_bind _ (frugal_pure _)).bind fun answer => ?_
      split
      · exact ih inner n
      · exact frugal_tell_bind _ (frugal_pure n)
    | plain name script =>
      refine frugal_modify_bind (fun _ => rfl) (fun _ _ => rfl) ?_
      exact (frugal_leaving (script.run_frugal (ih (.plain name script)) n)).bind fun result =>
        runDeferred_frugal ih result.2 result.1

theorem drainQueue_frugal (fuel rounds : Nat) : ∀ n, Frugal (drainQueue fuel rounds n) := by
  induction rounds with
  | zero =>
    refine fun n => frugal_get_bind (fun _ _ => rfl) fun c => ?_
    split
    · exact frugal_pure n
    · exact frugal_exhausted
  | succ rounds ih =>
    refine fun n => frugal_get_bind (fun _ _ => rfl) fun c => ?_
    split
    · exact frugal_pure n
    · refine frugal_modify_bind (fun _ => rfl) (fun _ _ => rfl) (frugal_tell_bind _ ?_)
      exact frugal_modify_bind (fun _ => rfl) (fun _ _ => rfl) ((visit_frugal fuel _ n).bind ih)

/-- **Passes are frugal.** -/
theorem runPass_frugal (fuel : Nat) (v : Visitor) (n : Node) : Frugal (runPass fuel v n) :=
  frugal_modify_bind (fun _ => rfl) (fun _ _ => rfl)
    ((visit_frugal fuel v n).bind (drainQueue_frugal fuel fuel))

end Refactor
