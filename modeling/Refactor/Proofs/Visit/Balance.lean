import Mathlib.Tactic.Common
import Refactor.Visit.Walk

/-!
# Visits are balanced

Coming to a node opens a frame, a place for the cursor and a queue for visitors, and leaving it closes
the frame. In between a script may do whatever it likes to the innermost queue, but to no other
(`Context.Ahead`). So every visit comes back to the frames it was given, whether it succeeds or fails
and wherever in it that happens (`visit_balanced`).
-/

namespace Refactor

/-- The context a computation ended in, whether it failed or not. -/
def Outcome.context? {α : Type} : Outcome α → Option Context
  | .done _ c => some c
  | .failed _ c => some c
  | .exhausted => none

/-- The later context has the frames of the earlier one. At most more has been left for the whole tree
and more nodes have been visited. -/
structure Context.Balanced (c c' : Context) : Prop where
  cursor : c'.cursor = c.cursor
  deferred : c'.deferred = c.deferred
  queued : c.queued <+: c'.queued
  visited : c.visited ≤ c'.visited

/-- As before, but for the innermost queue. -/
structure Context.Ahead (c c' : Context) : Prop where
  cursor : c'.cursor = c.cursor
  frames : c'.deferred.length = c.deferred.length
  outer : c'.deferred.tail = c.deferred.tail
  queued : c.queued <+: c'.queued
  visited : c.visited ≤ c'.visited

namespace Context

variable {a b c : Context}

theorem Balanced.refl (c : Context) : c.Balanced c := ⟨rfl, rfl, List.prefix_refl _, Nat.le_refl _⟩

theorem Balanced.trans (h1 : a.Balanced b) (h2 : b.Balanced c) : a.Balanced c where
  cursor := h2.cursor.trans h1.cursor
  deferred := h2.deferred.trans h1.deferred
  queued := h1.queued.trans h2.queued
  visited := Nat.le_trans h1.visited h2.visited

theorem Ahead.trans (h1 : a.Ahead b) (h2 : b.Ahead c) : a.Ahead c where
  cursor := h2.cursor.trans h1.cursor
  frames := h2.frames.trans h1.frames
  outer := h2.outer.trans h1.outer
  queued := h1.queued.trans h2.queued
  visited := Nat.le_trans h1.visited h2.visited

theorem Balanced.ahead (h : a.Balanced b) : a.Ahead b where
  cursor := h.cursor
  frames := by rw [h.deferred]
  outer := by rw [h.deferred]
  queued := h.queued
  visited := h.visited

theorem balanced_queue (c : Context) (v : Visitor) : c.Balanced (c.queue v) :=
  ⟨rfl, rfl, List.prefix_append _ _, Nat.le_refl _⟩

/-- A visitor that is left goes to the innermost queue or, where there is none, to the whole tree. -/
theorem ahead_defer (c : Context) (v : Visitor) : c.Ahead (c.defer v) := by
  cases h : c.deferred with
  | nil =>
    rw [defer_of_nil h]
    exact (c.balanced_queue v).ahead
  | cons top rest =>
    rw [defer_of_cons h]
    refine ⟨rfl, ?_, ?_, List.prefix_refl _, Nat.le_refl _⟩
    · simp [h]
    · simp [h]

/-- **The frame.** What goes on inside of a node touches no frame but its own, and that is closed. -/
theorem Ahead.leave {t : Tree} (h : (c.enter t).Ahead b) : c.Balanced b.leave.2 where
  cursor := by
    have hcursor : b.cursor = c.cursor.push t := h.cursor
    simp [Context.leave, hcursor]
  deferred := h.outer
  queued := h.queued
  visited := Nat.le_trans (Nat.le_succ _) h.visited

end Context

namespace Visit

variable {α β : Type} {R : Context → Context → Prop}

/-- The context that the computation ends in is related to the one it is given. -/
def Relates (R : Context → Context → Prop) (x : Visit α) : Prop :=
  ∀ c c', (x c).context? = some c' → R c c'

theorem Relates.imp {R' : Context → Context → Prop} {x : Visit α} (hx : x.Relates R)
    (h : ∀ c c', R c c' → R' c c') : x.Relates R' := fun c c' hc => h c c' (hx c c' hc)

theorem Relates.bind {x : Visit α} {f : α → Visit β} (htrans : ∀ a b c, R a b → R b c → R a c)
    (hx : x.Relates R) (hf : ∀ a, (f a).Relates R) : (x >>= f).Relates R := by
  intro c c' h
  dsimp only [Bind.bind] at h
  cases hout : x c with
  | done a c1 =>
    rw [hout] at h
    exact htrans c c1 c' (hx c c1 (by rw [hout]; rfl)) (hf a c1 c' h)
  | failed e c1 =>
    rw [hout] at h
    exact hx c c' (by rw [hout]; exact h)
  | exhausted =>
    rw [hout] at h
    cases h

theorem relates_modify {g : Context → Context} (hg : ∀ c, R c (g c)) : (modify g).Relates R := by
  intro c c' h
  cases h
  exact hg c

theorem relates_get_bind {f : Context → Visit β} (hf : ∀ c, (f c).Relates R) :
    (get >>= f).Relates R := fun c c' h => hf c c c' h

theorem relates_exhausted : (exhausted : Visit α).Relates R := by
  intro c c' h
  cases h

section Frames

theorem balanced_pure (a : α) : (pure a : Visit α).Relates Context.Balanced := by
  intro c c' h
  cases h
  exact .refl c

theorem balanced_fail (e : VisitError) : (fail e : Visit α).Relates Context.Balanced := by
  intro c c' h
  cases h
  exact .refl c

theorem balanced_tell (entries : List Entry) : (tell entries).Relates Context.Balanced :=
  relates_modify fun _ => ⟨rfl, rfl, List.prefix_refl _, Nat.le_refl _⟩

theorem balanced_alloc (x : Alloc α) : (alloc x).Relates Context.Balanced := by
  intro c c' h
  cases h
  exact ⟨rfl, rfl, List.prefix_refl _, Nat.le_refl _⟩

theorem balanced_bind {x : Visit α} {f : α → Visit β} (hx : x.Relates Context.Balanced)
    (hf : ∀ a, (f a).Relates Context.Balanced) : (x >>= f).Relates Context.Balanced :=
  hx.bind (fun _ _ _ => .trans) hf

theorem ahead_bind {x : Visit α} {f : α → Visit β} (hx : x.Relates Context.Ahead)
    (hf : ∀ a, (f a).Relates Context.Ahead) : (x >>= f).Relates Context.Ahead :=
  hx.bind (fun _ _ _ => .trans) hf

theorem Relates.ahead {x : Visit α} (hx : x.Relates Context.Balanced) : x.Relates Context.Ahead :=
  hx.imp fun _ _ h => h.ahead

/-- Leaving a node closes what the computation has left open. -/
theorem exists_of_leaving {x : Visit α} {c c' : Context} (h : (leaving x c).context? = some c') :
    ∃ c1, (x c).context? = some c1 ∧ c' = c1.leave.2 := by
  unfold leaving at h
  cases hout : x c with
  | done _ c1 | failed _ c1 =>
    rw [hout] at h
    cases h
    exact ⟨c1, rfl, rfl⟩
  | exhausted =>
    rw [hout] at h
    cases h

/-- Coming to a node, staying within its frame and leaving it again is balanced. -/
theorem balanced_leaving {x : Visit α} (hx : x.Relates Context.Ahead) (t : Tree) :
    (modify (·.enter t) >>= fun _ => leaving x).Relates Context.Balanced := by
  intro c c' h
  change (leaving x (c.enter t)).context? = some c' at h
  obtain ⟨c1, hended, rfl⟩ := exists_of_leaving h
  exact (hx (c.enter t) c1 hended).leave

end Frames

end Visit

open Visit

/-! ### From children to visits -/

section Walk

variable {visitChild : Node → Visit Node} (hvisit : ∀ n, (visitChild n).Relates Context.Balanced)
include hvisit

theorem visitChildren_balanced (parent : Kind) (kids : List (Slot × Node)) :
    (visitChildren visitChild parent kids).Relates Context.Balanced := by
  induction kids with
  | nil => exact balanced_pure []
  | cons p rest ih =>
    obtain ⟨slot, child⟩ := p
    refine balanced_bind (hvisit child) fun visited => ?_
    split
    · exact balanced_bind ih fun others => balanced_pure (visited :: others)
    · exact balanced_fail _

theorem walkAs_balanced (kind : Kind) (n : Node) :
    (walkAs visitChild kind n).Relates Context.Balanced := by
  have hwalk : (walkNode visitChild n).Relates Context.Balanced := by
    refine balanced_bind (visitChildren_balanced hvisit n.kind n.shape.slotted) fun visited => ?_
    split
    · exact balanced_pure n
    · exact balanced_alloc _
  unfold walkAs
  split
  · exact balanced_pure n
  · split
    · exact hwalk
    · exact balanced_fail _

/-- A script touches no queue of visitors but the innermost. -/
theorem Script.run_ahead (s : Script Visitor) :
    ∀ n, (s.run visitChild n).Relates Context.Ahead := by
  induction s with
  | done => exact fun n => (balanced_pure n).ahead
  | fail e => exact fun n => (balanced_fail e).ahead
  | look next ih => exact fun n => relates_get_bind fun c => ih (c.place n) n
  | walk kind next ih => exact fun n => ahead_bind (walkAs_balanced hvisit kind n).ahead ih
  | edit e next ih => exact fun n => ahead_bind (balanced_alloc (e.apply n)).ahead ih
  | tell entries next ih => exact fun n => ahead_bind (balanced_tell entries).ahead fun _ => ih n
  | defer v next ih =>
    exact fun n => ahead_bind (relates_modify fun c => c.ahead_defer v) fun _ => ih n
  | queue v next ih =>
    exact fun n => ahead_bind (relates_modify fun c => (c.balanced_queue v).ahead) fun _ => ih n
  | cancel next ih =>
    refine fun n => ahead_bind (relates_modify fun c => ?_) fun _ => ih n
    exact ⟨rfl, rfl, rfl, List.prefix_refl _, Nat.le_refl _⟩

end Walk

theorem runDeferred_balanced {visit : Visitor → Node → Visit Node}
    (hvisit : ∀ v n, (visit v n).Relates Context.Balanced) (vs : List Visitor) :
    ∀ n, (runDeferred visit vs n).Relates Context.Balanced := by
  induction vs with
  | nil => exact fun n => balanced_pure n
  | cons v vs ih =>
    exact fun n => balanced_bind (balanced_tell _) fun _ => balanced_bind (hvisit v n) ih

/-- The induction is on the fuel, which covers the children and the visitors left at the node alike. -/
theorem visit_relates_balanced (fuel : Nat) :
    ∀ (v : Visitor) (n : Node), (visit fuel v n).Relates Context.Balanced := by
  induction fuel with
  | zero => exact fun v n => relates_exhausted
  | succ fuel ih =>
    intro v n
    cases v with
    | gated condition inner =>
      refine relates_get_bind fun c => balanced_bind (balanced_bind (balanced_tell _) fun _ =>
        balanced_pure _) fun answer => ?_
      split
      · exact ih inner n
      · exact balanced_bind (balanced_tell _) fun _ => balanced_pure n
    | plain name script =>
      have hscript := script.run_ahead (ih (.plain name script)) n
      have hvisit := balanced_bind (balanced_leaving hscript n.content) fun result =>
        runDeferred_balanced ih result.2 result.1
      exact fun c c' h => hvisit c c' h

/-- **Visits are balanced.** However a visit ends, with a node or with an error, the cursor and all the
queues of visitors left at nodes are what they were, more may have been left for the whole tree but
nothing taken away, and the count of visited nodes has not gone back. -/
theorem visit_balanced {fuel : Nat} {v : Visitor} {n : Node} {c c' : Context}
    (h : (visit fuel v n c).context? = some c') :
    c'.cursor = c.cursor ∧ c'.deferred = c.deferred ∧ c.queued <+: c'.queued ∧
      c.visited ≤ c'.visited := by
  have hbalanced := visit_relates_balanced fuel v n c c' h
  exact ⟨hbalanced.cursor, hbalanced.deferred, hbalanced.queued, hbalanced.visited⟩

/-- Does nothing at all. -/
def Visitor.idle : Visitor := .plain "idle" .done

/-- Leaves visitors in every way, before the walk and after it. The one left at the node leaves some more
and fails. -/
def Visitor.littering : Visitor :=
  let failing : Script Visitor := .defer idle (.queue idle (.fail (.unexpectedNode .literal .block)))
  .plain "littering" <| .queue idle <| .defer (.plain "failing" failing) <| .look fun p =>
    .walk p.current.kind <| .edit .copy <| .defer idle .done

/-- A visit that is under way, with visitors left at two nodes above and one for the whole tree. -/
def Context.underWay : Context :=
  { source := "littering", cycle := 1, hierarchy := default, cursor := .ofPath [default, default],
    deferred := [[.idle], [.idle, .idle]], queued := [.idle], visited := 2, session := {} }

/-- The visit of an inner node fails in a visitor that was left there. Two more visitors wait for the
whole tree then, those of the frames above wait as before. -/
theorem visit_balanced_littering :
    ∃ e c', visit 4 .littering (.mk default (.returnStmt none)) .underWay = .failed e c' ∧
      c'.queued.length = 3 ∧ c'.visited = 4 ∧ c'.cursor = Context.underWay.cursor ∧
      c'.deferred = Context.underWay.deferred ∧ Context.underWay.queued <+: c'.queued ∧
      Context.underWay.visited ≤ c'.visited := by
  obtain ⟨e, c', hfailed, hqueued, hvisited⟩ :
      ∃ e c', visit 4 .littering (.mk default (.returnStmt none)) .underWay = .failed e c' ∧
        c'.queued.length = 3 ∧ c'.visited = 4 := ⟨_, _, rfl, rfl, rfl⟩
  exact ⟨e, c', hfailed, hqueued, hvisited, visit_balanced (by rw [hfailed]; rfl)⟩

end Refactor
