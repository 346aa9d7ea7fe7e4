import Refactor.Proofs.Visit.Balance
import Refactor.Proofs.Visit.Pass

/-!
# The passes over the whole tree

A pass is made of sweeps: the visitor itself visits the tree, and then in turn every visitor that was left
for the whole tree, be it by a script, by a visitor left at a node or by an earlier sweep. To say which
these are, the visits are told once more with a list of what they hand over (`Watched`); that they are the
same visits is `Watches.erase`, and that what they hand over is what is added to the queue is
`Watches.tally`.
-/

namespace Refactor

/-! ### Watching what is handed over -/

/-- A computation, with the visitors that it hands over for the whole tree, in order. -/
def Watched (α : Type) : Type := Context → Outcome α × List Visitor

namespace Watched

variable {α β : Type}

instance : Monad Watched where
  pure a c := (.done a c, [])
  bind x f c :=
    match (x c).1 with
    | .done a c' => ((f a c').1, (x c).2 ++ (f a c').2)
    | .failed e c' => (.failed e c', (x c).2)
    | .exhausted => (.exhausted, (x c).2)

/-- A computation that hands over nothing. -/
def lift (x : Visit α) : Watched α := fun c => (x c, [])

def hand (v : Visitor) : Watched Unit := fun c => (.done () (c.queue v), [v])

def leaving (x : Watched α) : Watched (α × List Visitor) := fun c =>
  (Visit.leaving (fun c => (x c).1) c, (x c).2)

def visitChildren (visitChild : Node → Watched Node) (parent : Kind) :
    List (Slot × Node) → Watched (List Node)
  | [] => pure []
  | (slot, child) :: rest => do
    let visited ← visitChild child
    if visited.same child || slot.accepts visited.kind then do
      let others ← visitChildren visitChild parent rest
      pure (visited :: others)
    else lift (Visit.fail (.invalidReplacement parent slot visited.kind))

def walkNode (visitChild : Node → Watched Node) (n : Node) : Watched Node := do
  let visited ← visitChildren visitChild n.kind n.shape.slotted
  if visited.map (·.label.stamp) = n.children.map (·.label.stamp) then pure n
  else lift (Visit.alloc (n.withShape (n.shape.withChildren visited)))

def walkAs (visitChild : Node → Watched Node) (kind : Kind) (n : Node) : Watched Node :=
  if kind.isLeaf then pure n
  else if n.kind = kind then walkNode visitChild n
  else lift (Visit.fail (.unexpectedNode kind n.kind))

def runScript (visitChild : Node → Watched Node) : Script Visitor → Node → Watched Node
  | .done, n => pure n
  | .fail e, _ => lift (Visit.fail e)
  | .look next, n => do
    let c ← lift Visit.get
    runScript visitChild (next (c.place n)) n
  | .walk kind next, n => do
    let n ← walkAs visitChild kind n
    runScript visitChild next n
  | .edit e next, n => do
    let n ← lift (Visit.alloc (e.apply n))
    runScript visitChild next n
  | .tell entries next, n => do
    lift (Visit.tell entries)
    runScript visitChild next n
  | .defer v next, n => do
    lift (Visit.modify (·.defer v))
    runScript visitChild next n
  | .queue v next, n => do
    hand v
    runScript visitChild next n
  | .cancel next, n => do
    lift (Visit.modify (·.cancel))
    runScript visitChild next n

def runDeferred (visit : Visitor → Node → Watched Node) : List Visitor → Node → Watched Node
  | [], n => pure n
  | v :: vs, n => do
    lift (Visit.tell [.event (.deferredRun v.name n.kind n.label.id)])
    let n ← visit v n
    runDeferred visit vs n

def visit : Nat → Visitor → Node → Watched Node
  | 0, _, _ => lift Visit.exhausted
  | fuel + 1, .gated condition inner, n => do
    let c ← lift Visit.get
    if ← lift (Visit.traced (condition.evaluate c.hierarchy n.content)) then visit fuel inner n
    else do
      lift (Visit.tell [.event (.gateClosed inner.name condition.text)])
      pure n
  | fuel + 1, .plain name script, n => do
    lift (Visit.modify (·.enter n.content))
    let (result, deferred) ← leaving (runScript (visit fuel (.plain name script)) script n)
    runDeferred (visit fuel) deferred result

end Watched

/-- The first is the second, watched: it goes on in the same way, and where the frames are as `Q` says, it
hands over what is added to the queue. -/
structure Watches {α : Type} (Q : List (List Visitor) → Prop) (y : Watched α) (x : Visit α) : Prop where
  erase : ∀ c, (y c).1 = x c
  tally : ∀ c c', Q c.deferred → (x c).context? = some c' →
    Q c'.deferred ∧ c'.queued = c.queued ++ (y c).2

section Watches

variable {α β : Type} {Q : List (List Visitor) → Prop}

/-- A computation that touches neither the frames nor the queue. -/
def Visit.Still (x : Visit α) : Prop :=
  x.Relates fun c c' => c'.deferred = c.deferred ∧ c'.queued = c.queued

theorem watches_lift {x : Visit α} (hx : x.Still) : Watches Q (.lift x) x where
  erase _ := rfl
  tally c c' hQ h := by
    obtain ⟨hdeferred, hqueued⟩ := hx c c' h
    exact ⟨hdeferred ▸ hQ, hqueued.trans (List.append_nil _).symm⟩

theorem Watches.bind {x : Visit α} {y : Watched α} {f : α → Visit β} {g : α → Watched β}
    (h : Watches Q y x) (hf : ∀ a, Watches Q (g a) (f a)) : Watches Q (y >>= g) (x >>= f) where
  erase c := by
    dsimp only [Bind.bind]
    rw [h.erase]
    cases x c with
    | done a c1 => exact (hf a).erase c1
    | failed e c1 => rfl
    | exhausted => rfl
  tally c c' hQ hc' := by
    dsimp only [Bind.bind] at hc' ⊢
    rw [h.erase]
    cases hx : x c with
    | done a c1 =>
      rw [hx] at hc'
      obtain ⟨hQ1, hqueued1⟩ := h.tally c c1 hQ (by rw [hx]; rfl)
      obtain ⟨hQ', hqueued'⟩ := (hf a).tally c1 c' hQ1 hc'
      exact ⟨hQ', by rw [hqueued', hqueued1, List.append_assoc]⟩
    | failed e c1 =>
      rw [hx] at hc'
      exact h.tally c c' hQ (by rw [hx]; exact hc')
    | exhausted =>
      rw [hx] at hc'
      cases hc'

theorem watches_pure (a : α) : Watches Q (pure a) (pure a) :=
  watches_lift (x := pure a) (by rintro c _ ⟨⟩; exact ⟨rfl, rfl⟩)

theorem watches_fail (e : VisitError) : Watches Q (.lift (Visit.fail e)) (Visit.fail e : Visit α) :=
  watches_lift (by rintro c _ ⟨⟩; exact ⟨rfl, rfl⟩)

theorem watches_get : Watches Q (.lift Visit.get) Visit.get :=
  watches_lift (by rintro c _ ⟨⟩; exact ⟨rfl, rfl⟩)

theorem watches_tell (entries : List Entry) : Watches Q (.lift (Visit.tell entries)) (Visit.tell entries) :=
  watches_lift (by rintro c _ ⟨⟩; exact ⟨rfl, rfl⟩)

theorem watches_alloc (x : Alloc α) : Watches Q (.lift (Visit.alloc x)) (Visit.alloc x) :=
  watches_lift (by rintro c _ ⟨⟩; exact ⟨rfl, rfl⟩)

theorem watches_hand (v : Visitor) : Watches Q (.hand v) (Visit.modify (·.queue v)) where
  erase _ := rfl
  tally := by
    rintro c _ hQ ⟨⟩
    exact ⟨hQ, rfl⟩

/-- Balanced computations leave a node open that is. -/
theorem Watches.inside {x : Visit α} {y : Watched α} (h : Watches (fun _ => True) y x)
    (hx : x.Relates Context.Balanced) : Watches (· ≠ []) y x where
  erase := h.erase
  tally c c' hQ hc' := by
    rw [(hx c c' hc').deferred]
    exact ⟨hQ, (h.tally c c' trivial hc').2⟩

/-- With a node open, a visitor that is left there goes to no other queue. -/
theorem watches_defer (v : Visitor) :
    Watches (· ≠ []) (.lift (Visit.modify (·.defer v))) (Visit.modify (·.defer v)) where
  erase _ := rfl
  tally := by
    rintro c _ hopen ⟨⟩
    have hdefer : (c.defer v).deferred ≠ [] ∧ (c.defer v).queued = c.queued := by
      obtain ⟨top, rest, hdeferred⟩ := List.exists_cons_of_ne_nil hopen
      rw [Context.defer_of_cons hdeferred]
      exact ⟨List.cons_ne_nil _ _, rfl⟩
    exact ⟨hdefer.1, hdefer.2.trans (List.append_nil _).symm⟩

/-- Coming to a node and leaving it, with a node open in between. -/
theorem watches_leaving {x : Visit α} {y : Watched α} (h : Watches (· ≠ []) y x) (t : Tree) :
    Watches (fun _ => True) (.lift (Visit.modify (·.enter t)) >>= fun _ => .leaving y)
      (Visit.modify (·.enter t) >>= fun _ => Visit.leaving x) where
  erase c := by
    show Visit.leaving (fun c => (y c).1) (c.enter t) = Visit.leaving x (c.enter t)
    rw [funext h.erase]
  tally c c' _ hc' := by
    refine ⟨trivial, ?_⟩
    have hopen : (c.enter t).deferred ≠ [] := List.cons_ne_nil _ _
    change (Visit.leaving x (c.enter t)).context? = some c' at hc'
    show c'.queued = (c.enter t).queued ++ (y (c.enter t)).2
    obtain ⟨c1, hended, rfl⟩ := Visit.exists_of_leaving hc'
    exact (h.tally (c.enter t) c1 hopen hended).2

end Watches

/-! ### From children to visits -/

section Walk

variable {visitChild : Node → Visit Node} {watchChild : Node → Watched Node}
  (hwatch : ∀ n, Watches (fun _ => True) (watchChild n) (visitChild n))
include hwatch

theorem visitChildren_watches (parent : Kind) (kids : List (Slot × Node)) :
    Watches (fun _ => True) (.visitChildren watchChild parent kids)
      (visitChildren visitChild parent kids) := by
  induction kids with
  | nil => exact watches_pure []
  | cons p rest ih =>
    obtain ⟨slot, child⟩ := p
    refine (hwatch child).bind fun visited => ?_
    split
    · exact ih.bind fun others => watches_pure (visited :: others)
    · exact watches_fail _

theorem walkAs_watches (kind : Kind) (n : Node) :
    Watches (fun _ => True) (.walkAs watchChild kind n) (walkAs visitChild kind n) := by
  have hwalk : Watches (fun _ => True) (.walkNode watchChild n) (walkNode visitChild n) := by
    refine (visitChildren_watches hwatch n.kind n.shape.slotted).bind fun visited => ?_
    split
    · exact watches_pure n
    · exact watches_alloc _
  unfold Watched.walkAs walkAs
  split
  · exact watches_pure n
  · split
    · exact hwalk
    · exact watches_fail _

theorem runScript_watches (hvisit : ∀ n, (visitChild n).Relates Context.Balanced)
    (s : Script Visitor) : ∀ n, Watches (· ≠ []) (.runScript watchChild s n) (s.run visitChild n) := by
  induction s with
  | done => exact fun n => watches_pure n
  | fail e => exact fun n => watches_fail e
  | look next ih => exact fun n => watches_get.bind fun c => ih (c.place n) n
  | walk kind next ih =>
    exact fun n => ((walkAs_watches hwatch kind n).inside (walkAs_balanced hvisit kind n)).bind ih
  | edit e next ih => exact fun n => (watches_alloc (e.apply n)).bind ih
  | tell entries next ih => exact fun n => (watches_tell entries).bind fun _ => ih n
  | defer v next ih => exact fun n => (watches_defer v).bind fun _ => ih n
  | queue v next ih => exact fun n => (watches_hand v).bind fun _ => ih n
  | cancel next ih =>
    refine fun n => (watches_lift (x := Visit.modify (·.cancel)) ?_).bind fun _ => ih n
    rintro c _ ⟨⟩
    exact ⟨rfl, rfl⟩

end Walk

theorem runDeferred_watches {visit : Visitor → Node → Visit Node} {watch : Visitor → Node → Watched Node}
    (hwatch : ∀ v n, Watches (fun _ => True) (watch v n) (visit v n)) (vs : List Visitor) :
    ∀ n, Watches (fun _ => True) (.runDeferred watch vs n) (runDeferred visit vs n) := by
  induction vs with
  | nil => exact fun n => watches_pure n
  | cons v vs ih => exact fun n => (watches_tell _).bind fun _ => (hwatch v n).bind ih

/-- **Whole visits.** Visitors left at nodes are visits as well, so the induction is on the fuel. -/
theorem visit_watches (fuel : Nat) :
    ∀ (v : Visitor) (n : Node), Watches (fun _ => True) (.visit fuel v n) (visit fuel v n) := by
  induction fuel with
  | zero => exact fun v n => watches_lift (by rintro c _ ⟨⟩)
  | succ fuel ih =>
    intro v n
    cases v with
    | gated condition inner =>
      refine watches_get.bind fun c => (watches_lift ?_).bind fun answer => ?_
      · rintro c1 _ ⟨⟩
        exact ⟨rfl, rfl⟩
      · split
        · exact ih inner n
        · exact (watches_tell _).bind fun _ => watches_pure n
    | plain name script =>
      have hscript := runScript_watches (ih (.plain name script))
        (visit_relates_balanced fuel (.plain name script)) script n
      have hvisit := (watches_leaving hscript n.content).bind fun result =>
        runDeferred_watches ih result.2 result.1
      exact ⟨hvisit.erase, hvisit.tally⟩

/-! ### Sweeps -/

/-- A visitor that visits the whole tree. -/
structure Sweep where
  visitor : Visitor
  tree : Node
  start : Context

namespace Sweep

def outcome (fuel : Nat) (s : Sweep) : Outcome Node := visit fuel s.visitor s.tree s.start

/-- What is handed over for the whole tree in the course of it, with how it ends. -/
def watched (fuel : Nat) (s : Sweep) : Outcome Node × List Visitor :=
  Watched.visit fuel s.visitor s.tree s.start

/-- The first in the queue sweeps the tree next. -/
def next? (n : Node) (c : Context) : Option Sweep :=
  match c.queued with
  | [] => none
  | v :: vs => some ⟨v, n, ({ c with queued := vs }.tell [.event (.queuedRun v.name c.source)]).reset⟩

/-- The sweeps that come after one, with fuel for their number. -/
def after (fuel : Nat) : Nat → Sweep → List Sweep
  | 0, _ => []
  | rounds + 1, s =>
    match s.outcome fuel with
    | .done n c =>
      match next? n c with
      | some t => t :: after fuel rounds t
      | none => []
    | _ => []

/-- One sweep after another: the next takes the tree that has come out of the one before, and the last one
leaves nothing to be done, unless it fails. -/
inductive Chain (fuel : Nat) : Sweep → List Sweep → Outcome Node → Prop
  | last {s : Sweep} : (∀ n c, s.outcome fuel = .done n c → c.queued = []) → Chain fuel s [] (s.outcome fuel)
  | next {s t : Sweep} {later : List Sweep} {c : Context} {o : Outcome Node} :
      s.outcome fuel = .done t.tree c → next? t.tree c = some t → Chain fuel t later o →
      Chain fuel s (t :: later) o

section Next

variable {n : Node} {c : Context} {t : Sweep}

theorem queued_of_next?_none (h : next? n c = none) : c.queued = [] := by
  unfold next? at h
  cases hqueued : c.queued with
  | nil => rfl
  | cons v vs =>
    rw [hqueued] at h
    cases h

/-- The next sweep is that of the visitor that has waited longest, over the whole tree. -/
theorem of_next?_some (h : next? n c = some t) :
    t.tree = n ∧ c.queued = t.visitor :: t.start.queued ∧ t.start.cursor = .root ∧ t.start.deferred = [] := by
  unfold next? at h
  cases hqueued : c.queued with
  | nil =>
    rw [hqueued] at h
    cases h
  | cons v vs =>
    rw [hqueued] at h
    cases h
    exact ⟨rfl, rfl, rfl, rfl⟩

variable (fuel : Nat)

/-- The sweep, and all that is left to be done after it. -/
def finish (rounds : Nat) (s : Sweep) : Outcome Node :=
  (visit fuel s.visitor s.tree >>= drainQueue fuel rounds) s.start

theorem drainQueue_next (h : next? n c = some t) (rounds : Nat) :
    drainQueue fuel (rounds + 1) n c = t.finish fuel rounds := by
  unfold next? at h
  rw [drainQueue, Visit.bind_done (rfl : Visit.get c = .done c c)]
  cases hqueued : c.queued with
  | nil =>
    rw [hqueued] at h
    cases h
  | cons v vs =>
    rw [hqueued] at h
    cases h
    rfl

theorem drainQueue_zero (h : next? n c = some t) : drainQueue fuel 0 n c = .exhausted := by
  have hqueued : c.queued.isEmpty = false := by
    rw [(of_next?_some h).2.1]
    rfl
  show (if c.queued.isEmpty then pure n else Visit.exhausted : Visit Node) c = _
  rw [hqueued]
  rfl

end Next

/-- A sweep is the last one or there is a next. -/
theorem last_or_next (fuel : Nat) (s : Sweep) : (∀ n c, s.outcome fuel = .done n c → c.queued = []) ∨
    ∃ t c, s.outcome fuel = .done t.tree c ∧ next? t.tree c = some t := by
  cases hs : s.outcome fuel with
  | done n c =>
    cases hnext : next? n c with
    | none =>
      left
      rintro _ _ ⟨⟩
      exact queued_of_next?_none hnext
    | some t =>
      obtain rfl := (of_next?_some hnext).1
      exact Or.inr ⟨t, c, rfl, hnext⟩
  | failed e c =>
    left
    rintro _ _ ⟨⟩
  | exhausted =>
    left
    rintro _ _ ⟨⟩

section Last

variable {fuel : Nat} {s : Sweep} (h : ∀ n c, s.outcome fuel = .done n c → c.queued = [])
include h

theorem after_last (rounds : Nat) : s.after fuel rounds = [] := by
  cases rounds with
  | zero => rfl
  | succ rounds =>
    unfold after
    cases hs : s.outcome fuel with
    | done n c =>
      have hnext : next? n c = none := by
        unfold next?
        rw [h n c hs]
      simp only [hnext]
    | _ => rfl

theorem finish_last (rounds : Nat) : s.finish fuel rounds = s.outcome fuel := by
  unfold finish
  cases hs : s.outcome fuel with
  | done n c => exact (Visit.bind_done hs).trans (drainQueue_of_empty (h n c hs))
  | failed e c => exact Visit.bind_failed hs
  | exhausted =>
    dsimp only [bind]
    rw [show visit fuel s.visitor s.tree s.start = .exhausted from hs]

end Last

/-- **From sweep to sweep.** If all is done within the rounds there are, the sweeps make a chain. -/
theorem finish_chain (fuel rounds : Nat) : ∀ (s : Sweep) (c' : Context),
    (s.finish fuel rounds).context? = some c' →
      Chain fuel s (s.after fuel rounds) (s.finish fuel rounds) := by
  induction rounds with
  | zero =>
    intro s c' hended
    rcases s.last_or_next fuel with hlast | ⟨t, c, hdone, hnext⟩
    · rw [finish_last hlast]
      exact .last hlast
    · -- With no rounds left and a visitor in the queue, the drain has no context to end in.
      rw [finish, Visit.bind_done hdone, drainQueue_zero fuel hnext] at hended
      cases hended
  | succ rounds ih =>
    intro s c' hended
    rcases s.last_or_next fuel with hlast | ⟨t, c, hdone, hnext⟩
    · rw [finish_last hlast, after_last hlast]
      exact .last hlast
    · have hfinish : s.finish fuel (rounds + 1) = t.finish fuel rounds :=
        (Visit.bind_done hdone).trans (drainQueue_next fuel hnext rounds)
      have hafter : s.after fuel (rounds + 1) = t :: t.after fuel rounds := by
        simp only [after, hdone, hnext]
      rw [hfinish] at hended ⊢
      rw [hafter]
      exact .next hdone hnext (ih t c' hended)

namespace Chain

variable {fuel : Nat} {s : Sweep} {later : List Sweep} {o : Outcome Node}

/-- Every sweep but the first starts above the root. -/
theorem start_root (h : Chain fuel s later o) :
    ∀ t ∈ later, t.start.cursor = .root ∧ t.start.deferred = [] := by
  induction h with
  | last => simp
  | next _ hnext _ ih =>
    intro t ht
    rcases List.mem_cons.1 ht with rfl | ht
    · exact (of_next?_some hnext).2.2
    · exact ih t ht

/-- **First come, first served.** Those that sweep the tree and those that still wait in the end are, in
order, those that waited at the start and those that were handed over. -/
theorem queued (h : Chain fuel s later o) : ∀ c', o.context? = some c' →
    later.map (·.visitor) ++ c'.queued =
      s.start.queued ++ (s :: later).flatMap (fun t => (t.watched fuel).2) := by
  induction h with
  | @last s _ =>
    intro c' hc'
    rw [List.flatMap_singleton]
    exact ((visit_watches fuel s.visitor s.tree).tally s.start c' trivial hc').2
  | @next s t later c o hdone hnext _ ih =>
    intro c' hc'
    -- The queue after this sweep, of which the next one is the head.
    have htally : c.queued = s.start.queued ++ (s.watched fuel).2 :=
      ((visit_watches fuel s.visitor s.tree).tally s.start c trivial (congrArg Outcome.context? hdone)).2
    calc (t :: later).map (·.visitor) ++ c'.queued
        = t.visitor :: (later.map (·.visitor) ++ c'.queued) := rfl
      _ = (t.visitor :: t.start.queued) ++ (t :: later).flatMap (fun t => (t.watched fuel).2) := by
        rw [ih c' hc', List.cons_append]
      _ = s.start.queued ++ (s :: t :: later).flatMap (fun t => (t.watched fuel).2) := by
        rw [← (of_next?_some hnext).2.1, htally, List.append_assoc]
        rfl

/-- If it ends well, no one waits any more. -/
theorem queued_of_done (h : Chain fuel s later o) {n : Node} {c : Context} (ho : o = .done n c) :
    c.queued = [] := by
  induction h with
  | last hlast => exact hlast n c ho
  | next _ _ _ ih => exact ih ho

/-- A sweep that fails is the last, and the error is that of the whole. -/
theorem of_failed (h : Chain fuel s later o) {t : Sweep} (ht : t ∈ s :: later) {e : VisitError} {c : Context}
    (hfailed : t.outcome fuel = .failed e c) : o = .failed e c ∧ (s :: later).getLast? = some t := by
  induction h with
  | last =>
    obtain rfl := List.mem_singleton.1 ht
    exact ⟨hfailed, rfl⟩
  | next hdone _ _ ih =>
    rcases List.mem_cons.1 ht with rfl | ht
    · rw [hdone] at hfailed
      cases hfailed
    · exact ih ht

end Chain

end Sweep

/-- **Whole passes.** With nothing waiting at the start, a pass that does not run out of fuel is a chain of
sweeps over the whole tree: first that of the visitor, and then those of the visitors that are handed over
on the way, each once and in the order in which they are handed over. If all goes well none is left over,
and what the last sweep comes to is the result. If one fails, the pass fails with its error and those that
still wait are never run. -/
theorem runPass_drains (fuel : Nat) (v : Visitor) (n : Node) (c : Context) (hqueue : c.queued = [])
    {c' : Context} (hended : (runPass fuel v n c).context? = some c') :
    let first : Sweep := ⟨v, n, c.reset⟩
    let later := first.after fuel fuel
    Sweep.Chain fuel first later (runPass fuel v n c) ∧
    (∀ s ∈ first :: later, s.start.cursor = .root ∧ s.start.deferred = [] ∧
      (s.watched fuel).1 = s.outcome fuel) ∧
    later.map (·.visitor) ++ c'.queued = (first :: later).flatMap (fun s => (s.watched fuel).2) ∧
    (∀ m, runPass fuel v n c = .done m c' → c'.queued = []) ∧
    ∀ s ∈ first :: later, ∀ e c1, s.outcome fuel = .failed e c1 →
      runPass fuel v n c = .failed e c1 ∧ (first :: later).getLast? = some s := by
  intro first later
  have hchain : Sweep.Chain fuel first later (runPass fuel v n c) :=
    Sweep.finish_chain fuel fuel first c' hended
  refine ⟨hchain, ?_, ?_, fun m hdone => hchain.queued_of_done hdone,
    fun s hs e c1 hfailed => hchain.of_failed hs hfailed⟩
  · intro s hs
    have hstart : s.start.cursor = .root ∧ s.start.deferred = [] := by
      rcases List.mem_cons.1 hs with rfl | hs
      · exact ⟨rfl, rfl⟩
      · exact hchain.start_root s hs
    exact ⟨hstart.1, hstart.2, (visit_watches fuel s.visitor s.tree).erase s.start⟩
  · have hqueued := hchain.queued c' hended
    rwa [show first.start.queued = [] from hqueue, List.nil_append] at hqueued

/-- Hands over the visitor given, and leaves one at the node that hands over another. -/
def Visitor.handing (v : Visitor) : Visitor :=
  .plain "handing" (.queue v (.defer (.plain "left" (.queue idle .done)) .done))

/-- In the one pass the sweeps hand over another visitor, in the other one of them fails. -/
theorem runPass_drains_handing :
    let n : Node := .mk default (.returnStmt none)
    let c : Context := { source := "handing", cycle := 1, hierarchy := {}, session := {} }
    let more : Visitor := .plain "more" (.queue (.plain "last" .done) .done)
    let failing : Visitor := .plain "failing" (.fail (.unexpectedNode .literal .block))
    (∃ m c', runPass 9 (.handing more) n c = .done m c' ∧ c'.queued = [] ∧
      ((Sweep.mk (.handing more) n c.reset).after 9 9).map (·.visitor.name) = ["more", "idle", "last"] ∧
      Sweep.Chain 9 ⟨.handing more, n, c.reset⟩ ((Sweep.mk (.handing more) n c.reset).after 9 9) (.done m c')) ∧
    ∃ e c', runPass 9 (.handing failing) n c = .failed e c' ∧ c'.queued.length = 1 ∧
      ((Sweep.mk (.handing failing) n c.reset).after 9 9).map (·.visitor.name) = ["failing"] ∧
      Sweep.Chain 9 ⟨.handing failing, n, c.reset⟩ ((Sweep.mk (.handing failing) n c.reset).after 9 9)
        (.failed e c') := by
  intro n c more failing
  obtain ⟨m, c1, hdone, hnames⟩ : ∃ m c1, runPass 9 (.handing more) n c = .done m c1 ∧
      ((Sweep.mk (.handing more) n c.reset).after 9 9).map (·.visitor.name) = ["more", "idle", "last"] :=
    ⟨_, _, rfl, rfl⟩
  obtain ⟨e, c2, hfailed, hqueued, hnames'⟩ : ∃ e c2, runPass 9 (.handing failing) n c = .failed e c2 ∧
      c2.queued.length = 1 ∧
      ((Sweep.mk (.handing failing) n c.reset).after 9 9).map (·.visitor.name) = ["failing"] :=
    ⟨_, _, rfl, rfl, rfl⟩
  have hmore := runPass_drains 9 (.handing more) n c rfl (by rw [hdone]; rfl)
  have hfailing := runPass_drains 9 (.handing failing) n c rfl (by rw [hfailed]; rfl)
  exact ⟨⟨m, c1, hdone, hmore.2.2.2.1 m hdone, hnames, hdone ▸ hmore.1⟩,
    ⟨e, c2, hfailed, hqueued, hnames', hfailed ▸ hfailing.1⟩⟩

end Refactor
