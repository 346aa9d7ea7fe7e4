import Mathlib.Data.List.Basic
import Mathlib.Data.List.TakeWhile
import Mathlib.Tactic.Common
import Refactor.Text.Blank

/-!
# Splitting a text

What is left of a text when the blanks at its ends are cut off, how a text is made up of its words and the
blanks between them (`words_eq_pair`, `words_pair`), and how it falls into pieces at a separator.
-/

namespace Refactor.Text

/-- All characters are blank. -/
def Blank (cs : List Char) : Prop := ∀ c ∈ cs, isBlank c = true

/-- A run of characters none of which is blank. -/
def IsWord (cs : List Char) : Prop := cs ≠ [] ∧ ∀ c ∈ cs, isBlank c = false

/-! ### Blanks at the ends -/

theorem mem_dropWhile_of_not {p : Char → Bool} {cs : List Char} {c : Char} (hc : c ∈ cs) (hp : p c = false) :
    c ∈ cs.dropWhile p := by
  rw [← List.takeWhile_append_dropWhile (p := p) (l := cs), List.mem_append] at hc
  refine hc.resolve_left fun htaken => ?_
  rw [List.mem_takeWhile_imp htaken] at hp
  cases hp

/-- Only blanks are cut off. -/
theorem mem_trim {cs : List Char} {c : Char} (hc : c ∈ cs) (hblank : isBlank c = false) : c ∈ trim cs := by
  have hstart : c ∈ trimStart cs := mem_dropWhile_of_not hc hblank
  exact List.mem_reverse.2 (mem_dropWhile_of_not (List.mem_reverse.2 hstart) hblank)

theorem mem_of_mem_trim {cs : List Char} {c : Char} (hc : c ∈ trim cs) : c ∈ cs := by
  have hend : c ∈ trimStart cs :=
    List.mem_reverse.1 ((List.dropWhile_sublist isBlank).subset (List.mem_reverse.1 hc))
  exact (List.dropWhile_sublist isBlank).subset hend

theorem trim_eq_nil_iff {cs : List Char} : trim cs = [] ↔ Blank cs := by
  constructor
  · intro h c hc
    by_contra hblank
    have hmem := mem_trim hc (by simpa using hblank)
    rw [h] at hmem
    cases hmem
  · intro h
    rw [trim, trimStart, List.dropWhile_eq_nil_iff.2 h]
    rfl

theorem isBlank_head_trim {cs rest : List Char} {c : Char} (h : trim cs = c :: rest) : isBlank c = false := by
  obtain ⟨tail, htail⟩ : ∃ tail, trimStart cs = c :: tail := by
    have hprefix : trimEnd (trimStart cs) <+: trimStart cs := by
      unfold trimEnd
      rw [← List.reverse_suffix, List.reverse_reverse]
      exact List.dropWhile_suffix isBlank
    rw [trim] at h
    rw [h] at hprefix
    obtain ⟨more, hmore⟩ := hprefix
    exact ⟨rest ++ more, hmore.symm⟩
  have hhead := List.head?_dropWhile_not isBlank cs
  rw [← trimStart, htail] at hhead
  simpa using hhead

theorem isBlank_head?_trim (cs : List Char) : ∀ c ∈ (trim cs).head?, isBlank c = false := by
  intro c hc
  obtain ⟨rest, hrest⟩ := List.head?_eq_some_iff.1 hc
  exact isBlank_head_trim hrest

theorem trimStart_of_head {cs : List Char} (h : ∀ c ∈ cs.head?, isBlank c = false) : trimStart cs = cs := by
  unfold trimStart
  cases cs with
  | nil => rfl
  | cons c cs => rw [List.dropWhile_cons_of_neg (by simp [h c rfl])]

theorem trimEnd_of_last {cs : List Char} (h : ∀ c ∈ cs.getLast?, isBlank c = false) : trimEnd cs = cs := by
  have hkeep : cs.reverse.dropWhile isBlank = cs.reverse := trimStart_of_head (by rwa [List.head?_reverse])
  rw [trimEnd, hkeep, List.reverse_reverse]

/-- A text that neither begins nor ends with a blank has none to cut off. -/
theorem trim_of_ends {cs : List Char} (hhead : ∀ c ∈ cs.head?, isBlank c = false)
    (hlast : ∀ c ∈ cs.getLast?, isBlank c = false) : trim cs = cs := by
  rw [trim, trimStart_of_head hhead, trimEnd_of_last hlast]

/-! ### Words -/

theorem blank_of_words {cs : List Char} (h : words cs = []) : Blank cs := by
  fun_induction words cs with
  | case1 => simp [Blank]
  | case2 c cs hc ih => exact List.forall_mem_cons.2 ⟨hc, ih h⟩
  | case3 | case4 => cases h
  | case5 c hc d tail hd hnone ih =>
    rw [hnone] at h
    cases h
  | case6 c hc d tail hd v vs hsome ih =>
    rw [hsome] at h
    cases h

/-- **The first word**, with the blanks before it. What follows it is blank or begins so. -/
theorem words_eq_cons {cs w : List Char} {ws : List (List Char)} (h : words cs = w :: ws) :
    ∃ gap rest, cs = gap ++ (w ++ rest) ∧ Blank gap ∧ IsWord w ∧ words rest = ws ∧
      ∀ d ∈ rest.head?, isBlank d = true := by
  fun_induction words cs generalizing w ws with
  | case1 => cases h
  | case2 c cs hc ih =>
    obtain ⟨gap, rest, rfl, hgap, hw, hws, hrest⟩ := ih h
    exact ⟨c :: gap, rest, rfl, List.forall_mem_cons.2 ⟨hc, hgap⟩, hw, hws, hrest⟩
  | case3 c hc =>
    cases h
    exact ⟨[], [], rfl, by simp [Blank], by simpa [IsWord] using hc, rfl, by simp⟩
  | case4 c hc d tail hd ih =>
    cases h
    exact ⟨[], d :: tail, rfl, by simp [Blank], by simpa [IsWord] using hc, rfl, by simpa using hd⟩
  | case5 c hc d tail hd hnone ih =>
    exact absurd (blank_of_words hnone d (by simp)) hd
  | case6 c hc d tail hd v vs hsome ih =>
    rw [hsome] at h
    cases h
    obtain ⟨gap, rest, hcut, hgap, hv, hvs, hrest⟩ := ih hsome
    -- The next character is not blank, so it belongs to the word.
    obtain rfl : gap = [] := by
      cases gap with
      | nil => rfl
      | cons b gap =>
        obtain ⟨rfl, -⟩ := List.cons.inj hcut
        exact absurd (hgap d (by simp)) hd
    refine ⟨[], rest, by rw [hcut]; rfl, hgap, ⟨List.cons_ne_nil c v, ?_⟩, hvs, hrest⟩
    exact List.forall_mem_cons.2 ⟨by simpa using hc, hv.2⟩

/-- **A text of two words**, which does not begin with a blank. -/
theorem words_eq_pair {cs a b : List Char} (h : words cs = [a, b])
    (hhead : ∀ c ∈ cs.head?, isBlank c = false) :
    ∃ gap gap', cs = a ++ (gap ++ (b ++ gap')) ∧ gap ≠ [] ∧ Blank gap ∧ Blank gap' ∧ IsWord a ∧
      IsWord b := by
  obtain ⟨front, rest, rfl, hfront, ha, hrest, hnext⟩ := words_eq_cons h
  obtain ⟨gap, gap', rfl, hgap, hb, hgap', -⟩ := words_eq_cons hrest
  obtain rfl : front = [] := by
    cases front with
    | nil => rfl
    | cons c front =>
      have hc := hhead c (by simp)
      rw [hfront c (by simp)] at hc
      cases hc
  refine ⟨gap, gap', rfl, ?_, hgap, blank_of_words hgap', ha, hb⟩
  rintro rfl
  obtain ⟨c, b, rfl⟩ := List.exists_cons_of_ne_nil hb.1
  have hblank := hnext c (by simp)
  rw [hb.2 c (by simp)] at hblank
  cases hblank

theorem words_blank_append {gap : List Char} (hgap : Blank gap) (cs : List Char) :
    words (gap ++ cs) = words cs := by
  induction gap with
  | nil => rfl
  | cons c gap ih =>
    obtain ⟨hc, hgap⟩ := List.forall_mem_cons.1 hgap
    rw [List.cons_append, words.eq_def]
    simp only [hc, if_true, ih hgap]

/-- A word with blanks after it. -/
theorem words_append {w : List Char} (hw : IsWord w) {rest : List Char}
    (hrest : ∀ d ∈ rest.head?, isBlank d = true) : words (w ++ rest) = w :: words rest := by
  obtain ⟨hne, hw⟩ := hw
  induction w with
  | nil => exact absurd rfl hne
  | cons c w ih =>
    obtain ⟨hc, hw⟩ := List.forall_mem_cons.1 hw
    rw [List.cons_append, words.eq_def]
    cases w with
    | nil =>
      cases rest with
      | nil =>
        show (if isBlank c then words [] else [[c]]) = [[c]]
        rw [hc, if_neg Bool.false_ne_true]
      | cons d rest => simp [hc, hrest d rfl]
    | cons d w =>
      have hd := hw d (by simp)
      have htail := ih (List.cons_ne_nil d w) hw
      rw [List.cons_append] at htail ⊢
      simp [hc, hd, htail]

/-- **Two words**, with blanks between them and maybe after them. -/
theorem words_pair {a b gap gap' : List Char} (ha : IsWord a) (hb : IsWord b) (hne : gap ≠ [])
    (hgap : Blank gap) (hgap' : Blank gap') : words (a ++ (gap ++ (b ++ gap'))) = [a, b] := by
  have hblank : ∀ {cs : List Char}, Blank cs → ∀ d ∈ cs.head?, isBlank d = true := fun h d hd =>
    h d (List.mem_of_mem_head? hd)
  have hlast : words gap' = [] := by
    rw [← List.append_nil gap', words_blank_append hgap']
    rfl
  rw [words_append ha, words_blank_append hgap, words_append hb (hblank hgap'), hlast]
  rw [List.head?_append_of_ne_nil _ hne]
  exact hblank hgap

/-! ### Pieces -/

variable {separator : Char}

theorem pieces_eq_splitOn (cs : List Char) : pieces separator cs = cs.splitOn separator := by
  induction cs with
  | nil => rfl
  | cons c cs ih =>
    rw [pieces, ih, List.splitOn_cons_eq_if_modifyHead]
    by_cases hc : c = separator
    · simp [hc]
    · obtain ⟨p, ps, hp⟩ := List.exists_cons_of_ne_nil (List.splitOn_ne_nil separator cs)
      simp [hc, hp]

theorem not_mem_of_mem_pieces {cs : List Char} : ∀ piece ∈ pieces separator cs, separator ∉ piece := by
  induction cs with
  | nil => simp [pieces]
  | cons c cs ih =>
    rw [pieces]
    by_cases hc : c = separator
    · simpa [hc] using ih
    · rw [if_neg hc]
      cases hp : pieces separator cs with
      | nil => simpa using Ne.symm hc
      | cons p ps =>
        rw [hp] at ih
        simpa [Ne.symm hc] using ih

/-- The characters of pieces with the separator in between. -/
theorem mem_intercalate {ps : List (List Char)} {c : Char} (hc : c ≠ separator) :
    c ∈ [separator].intercalate ps ↔ ∃ p ∈ ps, c ∈ p := by
  induction ps with
  | nil => simp
  | cons p ps ih =>
    cases ps with
    | nil => simp
    | cons q qs => simp [List.intercalate_cons_cons, ih, hc]

end Refactor.Text
