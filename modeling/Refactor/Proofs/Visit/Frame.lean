import Refactor.Proofs.Node.Objects
import Refactor.Visit.Walk

/-!
# What a visit leaves as it was

A visit that succeeds comes back to the place it set out from: only the journal, the supply and the
count of visited nodes have moved on (`Context.Resumes`). `Visit.Yields x c P` puts together all that
is asked of one: it succeeds, it resumes, its result lies before the supply, and the result has the
property `P`.
-/

namespace Refactor

/-- The later context stands where the earlier one does. -/
structure Context.Resumes (c c' : Context) : Prop where
  source : c'.source = c.source
  cycle : c'.cycle = c.cycle
  hierarchy : c'.hierarchy = c.hierarchy
  cursor : c'.cursor = c.cursor
  deferred : c'.deferred = c.deferred
  queued : c'.queued = c.queued
  cancelled : c'.session.cancelled = c.session.cancelled
  stamp : c.session.supply.stamp ≤ c'.session.supply.stamp

namespace Context

theorem Resumes.refl (c : Context) : c.Resumes c :=
  ⟨rfl, rfl, rfl, rfl, rfl, rfl, rfl, Nat.le_refl _⟩

theorem Resumes.trans {a b c : Context} (h1 : a.Resumes b) (h2 : b.Resumes c) : a.Resumes c where
  source := h2.source.trans h1.source
  cycle := h2.cycle.trans h1.cycle
  hierarchy := h2.hierarchy.trans h1.hierarchy
  cursor := h2.cursor.trans h1.cursor
  deferred := h2.deferred.trans h1.deferred
  queued := h2.queued.trans h1.queued
  cancelled := h2.cancelled.trans h1.cancelled
  stamp := Nat.le_trans h1.stamp h2.stamp

@[simp] theorem current_place (c : Context) (n : Node) : (c.place n).current = n.content := rfl

@[simp] theorem cursor_place (c : Context) (n : Node) : (c.place n).cursor = c.cursor := rfl

@[simp] theorem path_enter (c : Context) (t : Tree) :
    (c.enter t).cursor.path = t :: c.cursor.path := rfl

theorem resumes_tell (c : Context) (entries : List Entry) : c.Resumes (c.tell entries) :=
  ⟨rfl, rfl, rfl, rfl, rfl, rfl, rfl, Nat.le_refl _⟩

/-- Coming to a node and leaving it again, with nothing left there, resumes. -/
theorem resumes_leave {c c' : Context} {t : Tree} (h : (c.enter t).Resumes c') :
    c'.leave.1 = [] ∧ c.Resumes c'.leave.2 := by
  have hdeferred : c'.deferred = [] :: c.deferred := h.deferred
  have hcursor : c'.cursor = c.cursor.push t := h.cursor
  refine ⟨by simp [leave, hdeferred], h.source, h.cycle, h.hierarchy, ?_, ?_, h.queued, h.cancelled,
    h.stamp⟩
  · simp [leave, hcursor]
  · simp [leave, hdeferred]

end Context

/-! ### What stays the same over a pass -/

/-- What the visits of one pass share: the source, the class table, and the stamp from which on
objects are new. -/
structure Setting where
  source : String
  hierarchy : Hierarchy
  bound : Nat

structure Context.In (c : Context) (σ : Setting) : Prop where
  source : c.source = σ.source
  hierarchy : c.hierarchy = σ.hierarchy
  bound : σ.bound ≤ c.session.supply.stamp

theorem Context.In.resumes {c c' : Context} {σ : Setting} (h : c.In σ) (hc : c.Resumes c') :
    c'.In σ :=
  ⟨hc.source.trans h.source, hc.hierarchy.trans h.hierarchy, Nat.le_trans h.bound hc.stamp⟩

theorem Context.In.enter {c : Context} {σ : Setting} (h : c.In σ) (t : Tree) : (c.enter t).In σ :=
  ⟨h.source, h.hierarchy, h.bound⟩

/-- The tree of the draft, and a session that has made nothing else. -/
def Draft.placed (d : Draft) : Node × Session := ((d.place {}).1, { supply := (d.place {}).2 })

theorem Draft.placed_predates (d : Draft) : d.placed.1.Predates d.placed.2.supply.stamp :=
  (Node.place_predates d {} Nat.one_pos).2

/-! ### Visits that succeed -/

namespace Visit

variable {α β : Type}

theorem bind_done {x : Visit α} {f : α → Visit β} {c c' : Context} {a : α} (h : x c = .done a c') :
    (x >>= f) c = f a c' := by
  dsimp only [bind]
  rw [h]

theorem bind_failed {x : Visit α} {f : α → Visit β} {c c' : Context} {e : VisitError}
    (h : x c = .failed e c') : (x >>= f) c = .failed e c' := by
  dsimp only [bind]
  rw [h]

theorem bind_congr {x y : Visit α} {c c' : Context} (h : x c = y c') (f : α → Visit β) :
    (x >>= f) c = (y >>= f) c' := by
  dsimp only [bind]
  rw [h]

/-- The computation succeeds and resumes, with a node of that property. -/
def Yields (x : Visit Node) (c : Context) (post : Node → Prop) : Prop :=
  ∃ n c', x c = .done n c' ∧ c.Resumes c' ∧ n.Predates c'.session.supply.stamp ∧ post n

theorem yields_pure {n : Node} {c : Context} {post : Node → Prop}
    (hn : n.Predates c.session.supply.stamp) (h : post n) : (pure n : Visit Node).Yields c post :=
  ⟨n, c, rfl, Context.Resumes.refl c, hn, h⟩

theorem Yields.imp {x : Visit Node} {c : Context} {post post' : Node → Prop} (h : x.Yields c post)
    (hp : ∀ n, post n → post' n) : x.Yields c post' := by
  obtain ⟨n, c', hx, hc, hn, hpost⟩ := h
  exact ⟨n, c', hx, hc, hn, hp n hpost⟩

theorem Yields.bind {x : Visit Node} {f : Node → Visit Node} {c : Context}
    {post post' : Node → Prop} (h : x.Yields c post)
    (hf : ∀ n c', c.Resumes c' → n.Predates c'.session.supply.stamp → post n →
      (f n).Yields c' post') : (x >>= f).Yields c post' := by
  obtain ⟨n, c', hx, hc, hn, hpost⟩ := h
  obtain ⟨m, c'', hf, hc', hm, hpost'⟩ := hf n c' hc hn hpost
  exact ⟨m, c'', (bind_done hx).trans hf, hc.trans hc', hm, hpost'⟩

theorem yields_tell {x : Visit Node} {c : Context} {post : Node → Prop} (entries : List Entry)
    (h : x.Yields (c.tell entries) post) : (tell entries >>= fun _ => x).Yields c post := by
  obtain ⟨n, c', hx, hc, hn, hpost⟩ := h
  exact ⟨n, c', hx, (c.resumes_tell entries).trans hc, hn, hpost⟩

/-- Making an object takes stamps from the supply and leaves all else. -/
theorem yields_alloc {x : Alloc Node} {c : Context} {post : Node → Prop}
    (hs : c.session.supply.stamp ≤ (x c.session.supply).2.stamp)
    (hn : (x c.session.supply).1.Predates (x c.session.supply).2.stamp)
    (h : post (x c.session.supply).1) : (alloc x).Yields c post :=
  ⟨_, _, rfl, ⟨rfl, rfl, rfl, rfl, rfl, rfl, rfl, hs⟩, hn, h⟩

end Visit

end Refactor
