import Refactor.Journal.Event

/-!
The journal of a run: the events, and the notes that visitors and conditions leave for the caller,
in one order. A computation that does nothing but answer and write entries is a `Traced` value.
-/

namespace Refactor

inductive Entry where
  | event (e : Event)
  | note (value : Json)
  deriving Inhabited

def Entry.event? : Entry → Option Event
  | event e => some e
  | note _ => none

def Entry.note? : Entry → Option Json
  | event _ => none
  | note v => some v

/-- An answer together with the entries written on the way to it. -/
structure Traced (α : Type) where
  value : α
  entries : List Entry := []

namespace Traced

variable {α β : Type}

instance : Monad Traced where
  pure a := ⟨a, []⟩
  bind x f := ⟨(f x.value).value, x.entries ++ (f x.value).entries⟩

def tell (entries : List Entry) : Traced Unit := ⟨(), entries⟩

@[simp] theorem value_pure (a : α) : (pure a : Traced α).value = a := rfl

@[simp] theorem value_bind (x : Traced α) (f : α → Traced β) :
    (x >>= f).value = (f x.value).value := rfl

/-- Tests the items in order up to the first that passes. -/
def any (test : α → Traced Bool) : List α → Traced Bool
  | [] => pure false
  | a :: rest => do
    if ← test a then pure true else any test rest

/-- Tests the items in order up to the first that fails. -/
def all (test : α → Traced Bool) : List α → Traced Bool
  | [] => pure true
  | a :: rest => do
    if ← test a then all test rest else pure false

@[simp] theorem value_any (test : α → Traced Bool) (xs : List α) :
    (any test xs).value = xs.any fun a => (test a).value := by
  induction xs with
  | nil => rfl
  | cons a rest ih =>
    simp only [any, value_bind, List.any_cons]
    cases h : (test a).value <;> simp [ih]

@[simp] theorem value_all (test : α → Traced Bool) (xs : List α) :
    (all test xs).value = xs.all fun a => (test a).value := by
  induction xs with
  | nil => rfl
  | cons a rest ih =>
    simp only [all, value_bind, List.all_cons]
    cases h : (test a).value <;> simp [ih]

end Traced

end Refactor
