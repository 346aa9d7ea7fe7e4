import Mathlib.Data.List.Basic
import Mathlib.Data.List.Forall2
import Mathlib.Data.List.Nodup
import Mathlib.Tactic.Common

/-!
# Lists

Lists that correspond element by element, lists cut at an element, and lists that are freed of repetitions.
-/

namespace Refactor

variable {α β γ : Type} {xs : List α}

/-! ### Element by element -/

lemma map_eq_of_forall₂ {f : α → γ} {g : β → γ} {ys : List β}
    (h : List.Forall₂ (fun a b => g b = f a) xs ys) : ys.map g = xs.map f := by
  induction h with
  | nil => rfl
  | cons hab _ ih => rw [List.map_cons, List.map_cons, hab, ih]

lemma forall₂_and_map_eq {P : α → β → Prop} {f : α → γ} {g : β → γ} {ys : List β}
    (h : List.Forall₂ P xs ys) (heq : ys.map g = xs.map f) :
    List.Forall₂ (fun x y => P x y ∧ g y = f x) xs ys := by
  induction h with
  | nil => exact .nil
  | cons hxy _ ih =>
    rw [List.map_cons, List.map_cons, List.cons.injEq] at heq
    exact .cons ⟨hxy, heq.1⟩ (ih heq.2)

lemma exists_left_of_forall₂ {P : α → β → Prop} {ys : List β} (h : List.Forall₂ P xs ys) :
    ∀ y ∈ ys, ∃ x ∈ xs, P x y := by
  induction h with
  | nil => simp
  | @cons a b _ _ hab _ ih =>
    intro y hy
    rcases List.mem_cons.1 hy with rfl | hy
    · exact ⟨a, by simp, hab⟩
    · obtain ⟨x, hx, hxy⟩ := ih y hy
      exact ⟨x, List.mem_cons_of_mem _ hx, hxy⟩

lemma exists_right_of_forall₂ {P : α → β → Prop} {ys : List β} (h : List.Forall₂ P xs ys) :
    ∀ x ∈ xs, ∃ y ∈ ys, P x y := fun x hx =>
  exists_left_of_forall₂ (P := fun y x => P x y) h.flip x hx

lemma forall₂_imp_of_mem {P Q : α → β → Prop} {ys : List β} (h : List.Forall₂ P xs ys)
    (hPQ : ∀ x ∈ xs, ∀ y, P x y → Q x y) : List.Forall₂ Q xs ys := by
  induction h with
  | nil => exact .nil
  | cons hab _ ih =>
    exact .cons (hPQ _ (by simp) _ hab) (ih fun x hx => hPQ x (List.mem_cons_of_mem _ hx))

lemma flatMap_sublist_of_forall₂ {f : α → List γ} {g : β → List γ} {ys : List β}
    (h : List.Forall₂ (fun x y => (g y).Sublist (f x)) xs ys) :
    (ys.flatMap g).Sublist (xs.flatMap f) := by
  induction h with
  | nil => exact List.Sublist.refl _
  | cons hxy _ ih => exact hxy.append ih

/-- Where the parts of two lists correspond and nothing occurs twice, what occurs in one part occurs
in no other. -/
lemma forall₂_mem_flatMap {P : α → β → Prop} {f : α → List γ} {g : β → List γ} {ys : List β}
    (h : List.Forall₂ P xs ys) (hsub : ∀ x y, P x y → g y ⊆ f x) (hnodup : (xs.flatMap f).Nodup) :
    List.Forall₂ (fun x y => P x y ∧ ∀ a ∈ f x, a ∈ ys.flatMap g → a ∈ g y) xs ys := by
  induction h with
  | nil => exact .nil
  | @cons x y xs ys hxy hrest ih =>
    rw [List.flatMap_cons, List.nodup_append] at hnodup
    obtain ⟨-, hxs, hdisjoint⟩ := hnodup
    have htail : ys.flatMap g ⊆ xs.flatMap f := by
      intro a ha
      obtain ⟨y', hy', ha⟩ := List.mem_flatMap.1 ha
      obtain ⟨x', hx', hx'y'⟩ := exists_left_of_forall₂ hrest y' hy'
      exact List.mem_flatMap.2 ⟨x', hx', hsub x' y' hx'y' ha⟩
    refine .cons ⟨hxy, fun a ha ha' => ?_⟩ (forall₂_imp_of_mem (ih hxs) ?_)
    · rcases List.mem_append.1 (List.flatMap_cons ▸ ha') with h | h
      · exact h
      · exact absurd rfl (hdisjoint a ha a (htail h))
    · rintro x' hx' y' ⟨hxy', hmem⟩
      refine ⟨hxy', fun a ha ha' => hmem a ha ?_⟩
      rcases List.mem_append.1 (List.flatMap_cons ▸ ha') with h | h
      · exact absurd rfl (hdisjoint a (hsub x y hxy h) a (List.mem_flatMap.2 ⟨x', hx', ha⟩))
      · exact h

lemma exists_ne_of_forall₂ {P : α → α → Prop} {ys : List α} (h : List.Forall₂ P xs ys)
    (hne : ys ≠ xs) : ∃ x ∈ xs, ∃ y, P x y ∧ y ≠ x := by
  induction h with
  | nil => exact absurd rfl hne
  | @cons a b as bs hab _ ih =>
    by_cases hb : b = a
    · obtain ⟨x, hx, y, hxy, hyx⟩ := ih fun h => hne (by rw [hb, h])
      exact ⟨x, List.mem_cons_of_mem _ hx, y, hxy, hyx⟩
    · exact ⟨a, by simp, b, hab, hb⟩

lemma filterMap_eq_of_map_some {f : α → Option β} {ys : List β}
    (h : ys.map some = xs.map f) : ys = xs.filterMap f := by
  calc ys = (ys.map some).filterMap id := by simp [List.filterMap_map]
    _ = (xs.map f).filterMap id := by rw [h]
    _ = xs.filterMap f := by simp [List.filterMap_map]

/-! ### Cutting at an element -/

lemma append_singleton_eq_append_cons {xs a b : List α} {x y : α} (h : xs ++ [x] = a ++ y :: b) :
    (a = xs ∧ y = x ∧ b = []) ∨ ∃ b', b = b' ++ [x] ∧ xs = a ++ y :: b' := by
  rcases List.eq_nil_or_concat b with rfl | ⟨b', z, rfl⟩
  · obtain ⟨h1, h2⟩ := List.append_inj' h rfl
    exact Or.inl ⟨h1.symm, (List.singleton_inj.1 h2).symm, rfl⟩
  · have h : xs ++ [x] = (a ++ y :: b') ++ [z] := by simpa using h
    obtain ⟨h1, h2⟩ := List.append_inj' h rfl
    obtain rfl := List.singleton_inj.1 h2
    exact Or.inr ⟨b', by simp, h1⟩

/-! ### Repetitions -/

section Repetitions

variable [DecidableEq α] [DecidableEq β]

/-- Induction along the elements that are left when a list is freed of repetitions. -/
theorem eraseDups_ind {motive : List α → Prop} (nil : motive [])
    (cons : ∀ x xs, motive (xs.filter fun y => !y == x) → motive (x :: xs)) : ∀ xs, motive xs
  | [] => nil
  | x :: xs => cons x xs (eraseDups_ind nil cons _)
termination_by xs => xs.length
decreasing_by exact Nat.lt_succ_of_le (List.length_filter_le _ _)

/-- Repetitions stay where they are under a renaming. -/
theorem eraseDups_map {f : α → β} (hf : Function.Injective f) (xs : List α) :
    (xs.map f).eraseDups = xs.eraseDups.map f := by
  induction xs using eraseDups_ind with
  | nil => rfl
  | cons x xs ih =>
    have hfilter : (xs.map f).filter (fun y => !y == f x) = (xs.filter fun y => !y == x).map f := by
      rw [List.filter_map]
      refine congrArg _ (List.filter_congr fun y _ => ?_)
      simp [hf.eq_iff]
    rw [List.map_cons, List.eraseDups_cons, List.eraseDups_cons, List.map_cons, hfilter, ih]

/-- In a list freed of repetitions, what comes first first occurs before the other. -/
theorem pairwise_eraseDups (xs : List α) :
    xs.eraseDups.Pairwise fun x y => ∃ a b, xs = a ++ x :: b ∧ y ∉ a ++ [x] := by
  induction xs using eraseDups_ind with
  | nil => exact List.Pairwise.nil
  | cons z xs ih =>
    have hne : ∀ y ∈ (xs.filter fun y => !y == z).eraseDups, y ≠ z := by
      intro y hy
      simpa using (List.mem_filter.1 (List.mem_eraseDups.1 hy)).2
    rw [List.eraseDups_cons, List.pairwise_cons]
    refine ⟨fun y hy => ⟨[], xs, rfl, by simpa using hne y hy⟩, ih.imp_of_mem fun {x y} _ hy hxy => ?_⟩
    -- where the shorter list is cut at `x`, so is the whole, with all that was dropped before it
    obtain ⟨a, b, hsplit, hya⟩ := hxy
    obtain ⟨a1, rest, rfl, ha1, hb1⟩ := List.filter_eq_append_iff.1 hsplit
    obtain ⟨a2, b2, rfl, hdropped, -, -⟩ := List.filter_eq_cons_iff.1 hb1
    refine ⟨z :: (a1 ++ a2), b2, by simp, fun hmem => ?_⟩
    simp only [List.cons_append, List.mem_cons, List.mem_append, List.not_mem_nil, or_false] at hmem hya
    rcases hmem with h | (h | h) | h
    · exact hne y hy h
    · exact hya (Or.inl (ha1 ▸ List.mem_filter.2 ⟨h, by simpa using hne y hy⟩))
    · exact hne y hy (by simpa using hdropped y h)
    · exact hya (Or.inr h)

end Repetitions

end Refactor
