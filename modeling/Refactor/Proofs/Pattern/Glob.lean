import Mathlib.Tactic.Common
import Refactor.Pattern.Glob

/-!
# What token lists match

A text is matched in one pass, with all token lists that could still match the rest. Each step takes the
first character off what the lists spell (`exists_step_iff`), so in the end the pass has decided whether
the whole text is spelled token by token (`matchesAll_iff`).
-/

namespace Refactor

namespace Token

/-- One segment of a name, of at least one character. -/
def IsSegment (cs : List Char) : Prop := cs ≠ [] ∧ ∀ c ∈ cs, isNameChar c = true

/-- The segments with a dot after each. -/
def dotted (segments : List (List Char)) : List Char := segments.flatMap (· ++ ['.'])

/-- The text falls into parts, one for each token in order. -/
def Spells : List Token → List Char → Prop
  | [], cs => cs = []
  | .char d :: ts, cs => ∃ rest, cs = d :: rest ∧ Spells ts rest
  | .run :: ts, cs => ∃ name rest, cs = name ++ rest ∧ (∀ c ∈ name, isNameChar c = true) ∧ Spells ts rest
  | .segments :: ts, cs => ∃ segs rest, cs = dotted segs ++ rest ∧ (∀ s ∈ segs, IsSegment s) ∧ Spells ts rest
  | .inSegment :: ts, cs => ∃ name segs rest, cs = name ++ '.' :: (dotted segs ++ rest) ∧
      (∀ c ∈ name, isNameChar c = true) ∧ (∀ s ∈ segs, IsSegment s) ∧ Spells ts rest

theorem nullable_iff (ts : List Token) : nullable ts = true ↔ Spells ts [] := by
  induction ts with
  | nil => simp [nullable, Spells]
  | cons t ts ih =>
    cases t with
    | char d => simp [nullable, Spells]
    | run =>
      simp only [nullable, Spells, ih]
      constructor
      · exact fun h => ⟨[], [], rfl, by simp, h⟩
      · rintro ⟨name, rest, hcut, -, h⟩
        obtain ⟨-, rfl⟩ := List.append_eq_nil_iff.1 hcut.symm
        exact h
    | segments =>
      simp only [nullable, Spells, ih]
      constructor
      · exact fun h => ⟨[], [], rfl, by simp, h⟩
      · rintro ⟨segs, rest, hcut, -, h⟩
        obtain ⟨-, rfl⟩ := List.append_eq_nil_iff.1 hcut.symm
        exact h
    | inSegment => simp [nullable, Spells]

/-! ### One character -/

variable {c : Char} {cs : List Char} {ts : List Token}

theorem spells_run_cons : Spells (.run :: ts) (c :: cs) ↔
    isNameChar c = true ∧ Spells (.run :: ts) cs ∨ Spells ts (c :: cs) := by
  constructor
  · rintro ⟨name, rest, hcut, hname, h⟩
    cases name with
    | nil =>
      obtain rfl : c :: cs = rest := hcut
      exact Or.inr h
    | cons d name =>
      obtain ⟨rfl, rfl⟩ := List.cons.inj hcut
      obtain ⟨hd, hname⟩ := List.forall_mem_cons.1 hname
      exact Or.inl ⟨hd, name, rest, rfl, hname, h⟩
  · rintro (⟨hc, name, rest, rfl, hname, h⟩ | h)
    · exact ⟨c :: name, rest, rfl, List.forall_mem_cons.2 ⟨hc, hname⟩, h⟩
    · exact ⟨[], c :: cs, rfl, by simp, h⟩

theorem spells_segments_cons : Spells (.segments :: ts) (c :: cs) ↔
    isNameChar c = true ∧ Spells (.inSegment :: ts) cs ∨ Spells ts (c :: cs) := by
  constructor
  · rintro ⟨segs, rest, hcut, hsegs, h⟩
    rcases segs with _ | ⟨_ | ⟨d, name⟩, segs⟩
    · obtain rfl : c :: cs = rest := hcut
      exact Or.inr h
    · exact absurd rfl (hsegs [] (by simp)).1
    · obtain ⟨hfirst, hothers⟩ := List.forall_mem_cons.1 hsegs
      obtain ⟨hd, hname⟩ := List.forall_mem_cons.1 hfirst.2
      rw [dotted, List.flatMap_cons, List.cons_append, List.cons_append, List.cons_append,
        List.cons.injEq] at hcut
      obtain ⟨rfl, rfl⟩ := hcut
      exact Or.inl ⟨hd, name, segs, rest, by simp [dotted], hname, hothers, h⟩
  · rintro (⟨hc, name, segs, rest, rfl, hname, hsegs, h⟩ | h)
    · refine ⟨(c :: name) :: segs, rest, by simp [dotted], List.forall_mem_cons.2 ⟨⟨?_, ?_⟩, hsegs⟩, h⟩
      · exact List.cons_ne_nil c name
      · exact List.forall_mem_cons.2 ⟨hc, hname⟩
    · exact ⟨[], c :: cs, rfl, by simp, h⟩

theorem spells_inSegment_cons : Spells (.inSegment :: ts) (c :: cs) ↔
    isNameChar c = true ∧ Spells (.inSegment :: ts) cs ∨ c = '.' ∧ Spells (.segments :: ts) cs := by
  constructor
  · rintro ⟨name, segs, rest, hcut, hname, hsegs, h⟩
    cases name with
    | nil =>
      obtain ⟨rfl, rfl⟩ := List.cons.inj hcut
      exact Or.inr ⟨rfl, segs, rest, rfl, hsegs, h⟩
    | cons d name =>
      obtain ⟨rfl, rfl⟩ := List.cons.inj hcut
      obtain ⟨hd, hname⟩ := List.forall_mem_cons.1 hname
      exact Or.inl ⟨hd, name, segs, rest, rfl, hname, hsegs, h⟩
  · rintro (⟨hc, name, segs, rest, rfl, hname, hsegs, h⟩ | ⟨rfl, segs, rest, rfl, hsegs, h⟩)
    · exact ⟨c :: name, segs, rest, rfl, List.forall_mem_cons.2 ⟨hc, hname⟩, hsegs, h⟩
    · exact ⟨[], segs, rest, rfl, by simp, hsegs, h⟩

/-- **One step.** What is left after a character spells the rest exactly if the tokens spell the whole. -/
theorem exists_step_iff (c : Char) (cs : List Char) (ts : List Token) :
    (∃ left ∈ step c ts, Spells left cs) ↔ Spells ts (c :: cs) := by
  induction ts with
  | nil => simp [step, Spells]
  | cons t ts ih =>
    cases t with
    | char d =>
      simp [step, Spells, and_assoc]
    | run =>
      rw [spells_run_cons, ← ih]
      simp [step, or_and_right, exists_or, and_assoc]
    | segments =>
      rw [spells_segments_cons, ← ih]
      simp [step, or_and_right, exists_or, and_assoc]
    | inSegment =>
      rw [spells_inSegment_cons]
      simp [step, or_and_right, exists_or, and_assoc]

/-! ### A whole text -/

theorem someMatches_iff (states : List (List Token)) (cs : List Char) :
    someMatches states cs = true ↔ ∃ ts ∈ states, Spells ts cs := by
  induction cs generalizing states with
  | nil => simp [someMatches, nullable_iff]
  | cons c cs ih =>
    simp only [someMatches, ih, List.mem_eraseDups, List.mem_flatMap, ← exists_step_iff]
    constructor
    · rintro ⟨left, ⟨ts, hts, hleft⟩, h⟩
      exact ⟨ts, hts, left, hleft, h⟩
    · rintro ⟨ts, hts, left, hleft, h⟩
      exact ⟨left, ⟨ts, hts, hleft⟩, h⟩

/-- **The matcher is right**: it accepts exactly the texts that the tokens spell. -/
theorem matchesAll_iff (ts : List Token) (cs : List Char) : matchesAll ts cs = true ↔ Spells ts cs := by
  simp [matchesAll, someMatches_iff]

end Token

end Refactor
