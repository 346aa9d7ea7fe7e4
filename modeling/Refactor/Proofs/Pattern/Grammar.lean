import Refactor.Proofs.Pattern.Signatures

/-!
# The texts that are patterns

The grammar of patterns is written down on its own: type patterns (`TypePattern.IsType`), names of methods
(`NamePattern.IsName`), slots (`ParamSlot.IsSlot`) and from these whole patterns (`MethodPattern.Grammatical`).
Each compiler accepts what the grammar allows and nothing else, and a method pattern has the slots that are
written in its parameter list (`MethodPattern.compile_isOk_iff_grammatical`).

Neither parentheses, commas nor blanks can stand in what the compilers of the parts accept. So the cuts at
the first parenthesis, at blanks and at commas fall where the grammar has them.
-/

namespace Refactor

/-! ### Characters -/

namespace Text

/-- The code points of the blanks. -/
def blankPoints : List Nat := [9, 10, 11, 12, 13, 0x20, 0x85, 0xa0, 0x1680, 0x2000, 0x2001, 0x2002, 0x2003,
  0x2004, 0x2005, 0x2006, 0x2007, 0x2008, 0x2009, 0x200a, 0x2028, 0x2029, 0x202f, 0x205f, 0x3000]

theorem toNat_mem_blankPoints {c : Char} (h : isBlank c = true) : c.toNat ∈ blankPoints := by
  simp only [isBlank, Bool.or_eq_true, Bool.and_eq_true, decide_eq_true_eq, beq_iff_eq] at h
  simp only [blankPoints, List.mem_cons, List.not_mem_nil, or_false]
  omega

/-- No letter and no number is blank. -/
theorem isBlank_of_isAlphanumeric {c : Char} (h : isAlphanumeric c = true) : isBlank c = false := by
  have hnone : ∀ n ∈ blankPoints, isAlphanumeric (Char.ofNat n) = false := by decide +kernel
  by_contra hblank
  have hc := hnone c.toNat (toNat_mem_blankPoints (by simpa using hblank))
  rw [Char.ofNat_toNat, h] at hc
  cases hc

/-- A text without blanks has none at its ends. -/
theorem trim_of_not_isBlank {cs : List Char} (h : ∀ c ∈ cs, isBlank c = false) : trim cs = cs :=
  trim_of_ends (fun c hc => h c (List.mem_of_mem_head? hc)) fun c hc => h c (List.mem_of_getLast? hc)

end Text

/-- The characters that are letters, numbers or among those given. -/
def Spellable (others : List Char) (c : Char) : Prop := Text.isAlphanumeric c = true ∨ c ∈ others

theorem spellable_of_all {others text : List Char}
    (h : text.all (fun c => Text.isAlphanumeric c || others.contains c) = true) :
    ∀ c ∈ text, Spellable others c := by
  intro c hc
  have hspelled := List.all_eq_true.1 h c hc
  rwa [Bool.or_eq_true, List.contains_iff_mem] at hspelled

/-- A character that is no letter, no number and not among those given. -/
theorem Spellable.ne {others : List Char} {c d : Char} (h : Spellable others c)
    (halphanumeric : Text.isAlphanumeric d = false) (hothers : d ∉ others) : c ≠ d := by
  rintro rfl
  rcases h with h | h
  · rw [halphanumeric] at h
    cases h
  · exact hothers h

theorem Spellable.mono {others others' : List Char} {c : Char} (h : Spellable others c)
    (hsubset : others ⊆ others') : Spellable others' c := h.imp_right fun hc => hsubset hc

theorem Spellable.isBlank {others : List Char} {c : Char} (h : Spellable others c)
    (hothers : others.any Text.isBlank = false) : Text.isBlank c = false :=
  h.elim Text.isBlank_of_isAlphanumeric fun hc => by simpa using List.any_eq_false.1 hothers c hc

/-! ### Type patterns -/

namespace TypePattern

/-- The body of a type pattern: two dots stand between segments only. -/
structure IsBody (body : List Char) : Prop where
  ne_nil : body ≠ []
  spellable : ∀ c ∈ body, Spellable ['_', '$', '*', '[', ']', '.'] c
  start : ¬ ['.', '.'] <+: body
  finish : ¬ ['.'] <:+ body
  dots : ¬ ['.', '.', '.'] <:+: body

/-- A type pattern is a body, maybe with a plus after it. -/
def IsType (text : List Char) : Prop := ∃ body, IsBody body ∧ (text = body ∨ text = body ++ ['+'])

/-- A token more does not make the rest fail or succeed. -/
theorem exists_more_iff (x : Except PatternFault (List Token)) (f : List Token → List Token) :
    (∃ tokens, (x >>= fun ts => pure (f ts)) = .ok tokens) ↔ ∃ tokens, x = .ok tokens := by
  cases x with
  | error fault =>
    constructor
    · rintro ⟨tokens, h⟩
      cases h
    · rintro ⟨tokens, h⟩
      cases h
  | ok ts => exact ⟨fun _ => ⟨ts, rfl⟩, fun _ => ⟨f ts, rfl⟩⟩

theorem exists_tokenize_iff (body : List Char) :
    (∃ tokens, tokenize body = .ok tokens) ↔ ∀ c ∈ body, Spellable ['_', '$', '*', '[', ']', '.'] c := by
  fun_induction tokenize body with
  | case1 => simp
  | case2 body ih => exact (exists_more_iff _ _).trans (ih.trans (by simp [Spellable]))
  | case3 body ih => exact (exists_more_iff _ _).trans (ih.trans (by simp [Spellable]))
  | case4 c body _ _ hc ih =>
    have hspellable : Spellable ['_', '$', '*', '[', ']', '.'] c := by
      simp only [Spellable, List.mem_cons, List.not_mem_nil, or_false]
      tauto
    rw [List.forall_mem_cons]
    exact (exists_more_iff _ _).trans (ih.trans ⟨fun h => ⟨hspellable, h⟩, And.right⟩)
  | case5 c body _ hstar hc =>
    constructor
    · rintro ⟨tokens, h⟩
      cases h
    · intro h
      have hspellable := h c List.mem_cons_self
      simp only [Spellable, List.mem_cons, List.not_mem_nil, or_false] at hspellable
      exact absurd (by tauto) hc

theorem hasThreeDots_iff (cs : List Char) : hasThreeDots cs = true ↔ ['.', '.', '.'] <:+: cs := by
  fun_induction hasThreeDots cs with
  | case1 => simp
  | case2 cs => exact ⟨fun _ => ⟨[], cs, rfl⟩, fun _ => rfl⟩
  | case3 c cs hdots ih =>
    have hstart : ¬ ['.', '.', '.'] <+: c :: cs := by
      rintro ⟨rest, hrest⟩
      obtain ⟨hc, hcs⟩ := List.cons.inj hrest
      exact hdots rest hc.symm hcs.symm
    rw [ih, List.infix_cons_iff]
    simp [hstart]

/-- What passes the tests of a body. -/
theorem isBody_iff (body : List Char) : IsBody body ↔
    body ≠ [] ∧ ¬ (['.', '.'].isPrefixOf body = true ∨ body.getLast? = some '.') ∧
      hasThreeDots body = false ∧ ∃ tokens, tokenize body = .ok tokens := by
  have hlast : body.getLast? = some '.' ↔ ['.'] <:+ body := by
    rw [List.getLast?_eq_some_iff, List.IsSuffix]
    simp only [eq_comm]
  rw [exists_tokenize_iff, Bool.eq_false_iff, ne_eq (hasThreeDots body), hasThreeDots_iff,
    List.isPrefixOf_iff_prefix, hlast, not_or]
  constructor
  · intro h
    exact ⟨h.ne_nil, ⟨h.start, h.finish⟩, h.dots, h.spellable⟩
  · rintro ⟨hne, ⟨hstart, hfinish⟩, hdots, hspellable⟩
    exact ⟨hne, hspellable, hstart, hfinish, hdots⟩

theorem not_isAlphanumeric_plus : Text.isAlphanumeric '+' = false := by decide +kernel

theorem splitPlus_body {body : List Char} (h : IsBody body) : splitPlus body = (body, false) := by
  unfold splitPlus
  rw [if_neg]
  intro hlast
  exact (h.spellable '+' (List.mem_of_getLast? hlast)).ne not_isAlphanumeric_plus (by decide) rfl

theorem splitPlus_plus (body : List Char) : splitPlus (body ++ ['+']) = (body, true) := by
  simp [splitPlus]

/-- **The type patterns** are the texts that compile. -/
theorem exists_compileTrimmed_iff (text : List Char) :
    (∃ p, compileTrimmed text = .ok p) ↔ IsType text := by
  constructor
  · rintro ⟨p, hp⟩
    obtain ⟨-, hne, hdots, hthree, tokens, htokens, -⟩ := compileTrimmed_eq_ok_iff.1 hp
    refine ⟨(splitPlus text).1, (isBody_iff _).2 ⟨hne, hdots, hthree, tokens, htokens⟩, ?_⟩
    have hsplit := splitPlus_append text
    cases hplus : (splitPlus text).2 with
    | false => exact Or.inl (by simpa [hplus] using hsplit.symm)
    | true => exact Or.inr (by simpa [hplus] using hsplit.symm)
  · rintro ⟨body, hbody, htext⟩
    obtain ⟨hne, hdots, hthree, tokens, htokens⟩ := (isBody_iff body).1 hbody
    have hsplit : (splitPlus text).1 = body := by
      rcases htext with rfl | rfl
      · rw [splitPlus_body hbody]
      · rw [splitPlus_plus]
    have htext : text ≠ [] := by
      rcases htext with rfl | rfl
      · exact hne
      · simp
    exact ⟨_, compileTrimmed_eq_ok_iff.2 ⟨htext, hsplit ▸ hne, hsplit ▸ hdots, hsplit ▸ hthree, tokens,
      hsplit ▸ htokens, rfl⟩⟩

theorem IsType.spellable {text : List Char} (h : IsType text) :
    ∀ c ∈ text, Spellable ['+', '_', '$', '*', '[', ']', '.'] c := by
  obtain ⟨body, hbody, htext⟩ := h
  intro c hc
  have hmem : c ∈ body ∨ c = '+' := by
    rcases htext with rfl | rfl
    · exact Or.inl hc
    · simpa using hc
  rcases hmem with hmem | rfl
  · exact (hbody.spellable c hmem).mono (by simp)
  · exact Or.inr (by simp)

theorem IsType.isWord {text : List Char} (h : IsType text) : Text.IsWord text := by
  refine ⟨?_, fun c hc => (h.spellable c hc).isBlank (by decide)⟩
  obtain ⟨body, hbody, rfl | rfl⟩ := h
  · exact hbody.ne_nil
  · simp

theorem compile_ofList {text : List Char} (h : IsType text) {p : TypePattern} :
    compile (String.ofList text) = .ok p ↔ compileTrimmed text = .ok p := by
  unfold compile
  rw [mapError_eq_ok, String.toList_ofList, Text.trim_of_not_isBlank h.isWord.2]

end TypePattern

/-! ### Names of methods -/

namespace NamePattern

/-- The name that stands for constructors, or any run of the characters of names and stars. -/
def IsName (text : List Char) : Prop :=
  text = constructorName ∨ text ≠ [] ∧ ∀ c ∈ text, Spellable ['_', '$', '*'] c

theorem isAllowed_iff (c : Char) : isAllowed c = true ↔ Spellable ['_', '$', '*'] c := by
  simp [isAllowed, Spellable, or_assoc]

/-- **The names** are the words that compile. -/
theorem exists_compile_iff {text : List Char} (hne : text ≠ []) : (∃ p, compile text = .ok p) ↔ IsName text := by
  have hall : text.find? (!isAllowed ·) = none ↔ ∀ c ∈ text, Spellable ['_', '$', '*'] c := by
    simp [List.find?_eq_none, isAllowed_iff]
  unfold compile
  by_cases hstar : text = ['*']
  · rw [if_pos hstar]
    exact ⟨fun _ => Or.inr ⟨hne, by simp [hstar, Spellable]⟩, fun _ => ⟨_, rfl⟩⟩
  rw [if_neg hstar]
  by_cases hconstructor : text = constructorName
  · rw [if_pos hconstructor]
    exact ⟨fun _ => Or.inl hconstructor, fun _ => ⟨_, rfl⟩⟩
  rw [if_neg hconstructor]
  cases hfind : text.find? (!isAllowed ·) with
  | some c =>
    -- A character that is not allowed is in no name but that of constructors.
    refine ⟨nofun, fun hname => ?_⟩
    rcases hname with hname | ⟨-, hname⟩
    · exact absurd hname hconstructor
    · rw [hall.2 hname] at hfind
      cases hfind
  | none =>
    refine ⟨fun _ => Or.inr ⟨hne, hall.1 hfind⟩, fun _ => ?_⟩
    dsimp only
    split
    · exact ⟨_, rfl⟩
    · exact ⟨_, rfl⟩

theorem IsName.spellable {text : List Char} (h : IsName text) :
    ∀ c ∈ text, Spellable ['<', '>', '_', '$', '*'] c := by
  rcases h with rfl | ⟨-, h⟩
  · exact spellable_of_all (by decide +kernel)
  · exact fun c hc => (h c hc).mono (by simp)

theorem IsName.isWord {text : List Char} (h : IsName text) : Text.IsWord text := by
  refine ⟨?_, fun c hc => (h.spellable c hc).isBlank (by decide)⟩
  rcases h with rfl | ⟨hne, -⟩
  · decide
  · exact hne

end NamePattern

/-! ### Slots -/

namespace ParamSlot

/-- The text of a slot, without blanks around it. -/
def IsSlot (text : List Char) : Prop := text = ['.', '.'] ∨ text = ['*'] ∨ TypePattern.IsType text

/-- What the text of a slot is read as. A star alone is no type pattern here. -/
inductive Reads : List Char → ParamSlot → Prop
  | rest : Reads ['.', '.'] .rest
  | one : Reads ['*'] .one
  | type {text : List Char} {p : TypePattern} : text ≠ ['*'] → TypePattern.IsType text →
      TypePattern.compile (String.ofList text) = .ok p → Reads text (.type p)

theorem not_isType_dots : ¬ TypePattern.IsType ['.', '.'] := by
  rintro ⟨body, hbody, hdots | hdots⟩
  · exact hbody.start (hdots ▸ List.prefix_refl _)
  · have hlast := congrArg List.getLast? hdots
    simp at hlast

theorem compile_eq_ok_iff (text : List Char) (slot : ParamSlot) :
    compile text = .ok slot ↔ Reads (Text.trim text) slot := by
  unfold compile
  generalize Text.trim text = trimmed
  dsimp only
  constructor
  · intro h
    obtain ⟨-, h⟩ := ite_error_eq_ok.1 h
    by_cases hdots : trimmed = ['.', '.']
    · rw [if_pos hdots] at h
      cases h
      exact hdots ▸ .rest
    rw [if_neg hdots] at h
    by_cases hstar : trimmed = ['*']
    · rw [if_pos hstar] at h
      cases h
      exact hstar ▸ .one
    rw [if_neg hstar] at h
    cases hp : TypePattern.compileTrimmed trimmed with
    | error fault =>
      rw [hp] at h
      cases h
    | ok p =>
      rw [hp] at h
      cases h
      have htype := (TypePattern.exists_compileTrimmed_iff trimmed).1 ⟨p, hp⟩
      exact .type hstar htype ((TypePattern.compile_ofList htype).2 hp)
  · intro h
    cases h with
    | rest => rfl
    | one => rfl
    | type hstar htype hp =>
      -- Two dots alone are no type, so the readings exclude each other.
      have hdots : trimmed ≠ ['.', '.'] := fun hdots => not_isType_dots (hdots ▸ htype)
      rw [if_neg htype.isWord.1, if_neg hdots, if_neg hstar, (TypePattern.compile_ofList htype).1 hp]
      rfl

theorem exists_reads_iff (text : List Char) : (∃ slot, Reads text slot) ↔ IsSlot text := by
  constructor
  · rintro ⟨slot, hslot⟩
    cases hslot with
    | rest => exact Or.inl rfl
    | one => exact Or.inr (Or.inl rfl)
    | type _ htype _ => exact Or.inr (Or.inr htype)
  · intro h
    by_cases hstar : text = ['*']
    · exact ⟨.one, hstar ▸ .one⟩
    rcases h with rfl | hone | htype
    · exact ⟨.rest, .rest⟩
    · exact absurd hone hstar
    · obtain ⟨p, hp⟩ := (TypePattern.exists_compileTrimmed_iff text).2 htype
      exact ⟨.type p, .type hstar htype ((TypePattern.compile_ofList htype).2 hp)⟩

theorem IsSlot.spellable {text : List Char} (h : IsSlot text) :
    ∀ c ∈ text, Spellable ['+', '_', '$', '*', '[', ']', '.'] c := by
  rcases h with rfl | rfl | h
  · simp [Spellable]
  · simp [Spellable]
  · exact h.spellable

theorem IsSlot.ne_nil {text : List Char} (h : IsSlot text) : text ≠ [] := by
  rcases h with rfl | rfl | h
  · simp
  · simp
  · exact h.isWord.1

end ParamSlot

/-! ### Parameter lists -/

namespace MethodPattern

/-- The texts of the slots in a parameter list: none in a blank one, and in any other those between the
commas, without the blanks around them. -/
inductive Lists : List Char → List (List Char) → Prop
  | none {params : List Char} : Text.Blank params → Lists params []
  | some {texts : List (List Char)} : texts ≠ [] → (∀ text ∈ texts, ',' ∉ text) →
      Lists ([','].intercalate texts) (texts.map Text.trim)

theorem lists_slotTexts (params : List Char) : Lists params (slotTexts params) := by
  unfold slotTexts
  by_cases hblank : Text.trim params = []
  · rw [if_pos hblank]
    exact .none (Text.trim_eq_nil_iff.1 hblank)
  · rw [if_neg hblank]
    have hlists : Lists ([','].intercalate (Text.pieces ',' params))
        ((Text.pieces ',' params).map Text.trim) :=
      .some (by rw [Text.pieces_eq_splitOn]; exact List.splitOn_ne_nil _ _) Text.not_mem_of_mem_pieces
    rwa [Text.pieces_eq_splitOn, List.intercalate_splitOn, ← Text.pieces_eq_splitOn] at hlists

variable {params : List Char} {slots : List (List Char)}

/-- The characters of a parameter list: blanks, commas and those of the slots. -/
theorem Lists.chars (h : Lists params slots) (hslots : ∀ slot ∈ slots, ParamSlot.IsSlot slot) :
    ∀ c ∈ params, Text.isBlank c = true ∨ Spellable [',', '+', '_', '$', '*', '[', ']', '.'] c := by
  cases h with
  | none hblank => exact fun c hc => Or.inl (hblank c hc)
  | @some texts =>
    intro c hc
    by_cases hblank : Text.isBlank c = true
    · exact Or.inl hblank
    by_cases hcomma : c = ','
    · exact Or.inr (Or.inr (by simp [hcomma]))
    obtain ⟨text, htext, hc⟩ := (Text.mem_intercalate hcomma).1 hc
    have hslot := hslots _ (List.mem_map_of_mem htext)
    have hspellable := hslot.spellable c (Text.mem_trim hc (by simpa using hblank))
    exact Or.inr (hspellable.mono (by simp))

/-- A character that stands nowhere in a parameter list. -/
theorem Lists.not_mem (h : Lists params slots) (hslots : ∀ slot ∈ slots, ParamSlot.IsSlot slot) {c : Char}
    (hblank : Text.isBlank c = false) (halphanumeric : Text.isAlphanumeric c = false)
    (hothers : c ∉ [',', '+', '_', '$', '*', '[', ']', '.']) : c ∉ params := by
  intro hc
  rcases h.chars hslots c hc with hc | hc
  · rw [hblank] at hc
    cases hc
  · exact hc.ne halphanumeric hothers rfl

/-- There is one way only to read a parameter list. -/
theorem Lists.eq_slotTexts (h : Lists params slots) (hslots : ∀ slot ∈ slots, ParamSlot.IsSlot slot) :
    slots = slotTexts params := by
  unfold slotTexts
  cases h with
  | none hblank => rw [if_pos (Text.trim_eq_nil_iff.2 hblank)]
  | @some texts hne hcommas =>
    -- A slot is not blank, hence the list is not.
    obtain ⟨text, htext⟩ := List.exists_mem_of_ne_nil texts hne
    have hslot := hslots _ (List.mem_map_of_mem htext)
    obtain ⟨c, hc⟩ := List.exists_mem_of_ne_nil _ hslot.ne_nil
    have hspellable := hslot.spellable c hc
    have hcomma : c ≠ ',' := hspellable.ne (by decide +kernel) (by decide)
    have hmem : c ∈ [','].intercalate texts :=
      (Text.mem_intercalate hcomma).2 ⟨text, htext, Text.mem_of_mem_trim hc⟩
    have hnot : Text.trim ([','].intercalate texts) ≠ [] := fun hnil => by
      have hblank := Text.trim_eq_nil_iff.1 hnil c hmem
      rw [hspellable.isBlank (by decide)] at hblank
      cases hblank
    rw [if_neg hnot, Text.pieces_eq_splitOn, List.splitOn_intercalate _ hcommas hne]

theorem compileSlots_eq_ok_iff (params : List Char) (slots : List ParamSlot) :
    compileSlots params = .ok slots ↔ List.Forall₂ ParamSlot.Reads (slotTexts params) slots := by
  unfold compileSlots slotTexts
  split
  · rw [List.forall₂_nil_left_iff, Except.ok.injEq, eq_comm]
  · rw [mapM_eq_ok_iff, List.forall₂_map_left_iff]
    simp only [ParamSlot.compile_eq_ok_iff]

theorem exists_forall₂_reads_iff :
    (∃ compiled, List.Forall₂ ParamSlot.Reads slots compiled) ↔ ∀ slot ∈ slots, ParamSlot.IsSlot slot := by
  induction slots with
  | nil => simp
  | cons slot slots ih =>
    rw [List.forall_mem_cons, ← ih, ← ParamSlot.exists_reads_iff]
    constructor
    · rintro ⟨_, hall⟩
      obtain ⟨read, others, hread, hothers, -⟩ := List.forall₂_cons_left_iff.1 hall
      exact ⟨⟨read, hread⟩, others, hothers⟩
    · rintro ⟨⟨read, hread⟩, others, hothers⟩
      exact ⟨read :: others, .cons hread hothers⟩

/-! ### Whole patterns -/

/-- A pattern: a type, a name after some blanks, and a parameter list in parentheses. -/
structure Grammatical (text type name params : List Char) (slots : List (List Char)) : Prop where
  parts : ∃ gap gap', text = type ++ (gap ++ (name ++ gap')) ++ '(' :: (params ++ [')']) ∧ gap ≠ [] ∧
    Text.Blank gap ∧ Text.Blank gap'
  type : TypePattern.IsType type
  name : NamePattern.IsName name
  params : Lists params slots
  slots : ∀ slot ∈ slots, ParamSlot.IsSlot slot

/-- A text that is cut into its parts. -/
theorem compileTrimmed_of_parts {head type name params : List Char} {declaring : TypePattern}
    {named : NamePattern} {slots : List ParamSlot} (hhead : '(' ∉ head) (hwords : Text.words head = [type, name])
    (hopen : '(' ∉ params) (hclose : ')' ∉ params) (hslots : compileSlots params = .ok slots)
    (hdeclaring : TypePattern.compileTrimmed type = .ok declaring) (hnamed : NamePattern.compile name = .ok named) :
    compileTrimmed (head ++ '(' :: (params ++ [')'])) =
      .ok ⟨String.ofList (head ++ '(' :: (params ++ [')'])), declaring, named, slots, false⟩ := by
  have hbefore : ∀ c ∈ head, decide (c ≠ '(') = true := fun c hc => by
    simpa using fun hparen : c = '(' => hhead (hparen ▸ hc)
  have htake : (head ++ '(' :: (params ++ [')'])).takeWhile (· ≠ '(') = head := by
    rw [List.takeWhile_append_of_pos hbefore]
    simp
  have hdrop : (head ++ '(' :: (params ++ [')'])).dropWhile (· ≠ '(') = '(' :: (params ++ [')']) := by
    rw [List.dropWhile_append_of_pos hbefore]
    simp
  unfold compileTrimmed
  simp only [htake, hdrop]
  simp [hopen, hclose, hwords, hslots, hdeclaring, hnamed, bind, Except.bind, pure, Except.pure]

/-- A character that stands nowhere before a parameter list. -/
theorem not_mem_head {type gap name gap' : List Char} (htype : TypePattern.IsType type) (hname : NamePattern.IsName name)
    (hgap : Text.Blank gap) (hgap' : Text.Blank gap') {c : Char} (hblank : Text.isBlank c = false)
    (halphanumeric : Text.isAlphanumeric c = false)
    (hothers : c ∉ ['+', '_', '$', '*', '[', ']', '.', '<', '>']) : c ∉ type ++ (gap ++ (name ++ gap')) := by
  have hgaps : ∀ {cs : List Char}, Text.Blank cs → c ∉ cs := fun hcs hmem => by
    rw [hcs c hmem] at hblank
    cases hblank
  simp only [List.mem_append, not_or]
  refine ⟨fun hmem => ?_, hgaps hgap, fun hmem => ?_, hgaps hgap'⟩
  · exact ((htype.spellable c hmem).mono (by simp)).ne halphanumeric hothers rfl
  · exact ((hname.spellable c hmem).mono (by simp)).ne halphanumeric hothers rfl

/-- **What the grammar allows** compiles, part by part. -/
theorem compileTrimmed_of_grammatical {text type name params : List Char} {slots : List (List Char)}
    (h : Grammatical text type name params slots) :
    ∃ p, compileTrimmed text = .ok p ∧ TypePattern.compileTrimmed type = .ok p.declaring ∧
      NamePattern.compile name = .ok p.name ∧ List.Forall₂ ParamSlot.Reads slots p.slots := by
  obtain ⟨⟨gap, gap', rfl, hne, hgap, hgap'⟩, htype, hname, hparams, hslots⟩ := h
  obtain ⟨declaring, hdeclaring⟩ := (TypePattern.exists_compileTrimmed_iff type).2 htype
  obtain ⟨named, hnamed⟩ := (NamePattern.exists_compile_iff hname.isWord.1).2 hname
  obtain ⟨compiled, hcompiled⟩ := exists_forall₂_reads_iff.2 hslots
  have hblank : Text.isBlank '(' = false ∧ Text.isBlank ')' = false := by decide
  have hletter : Text.isAlphanumeric '(' = false ∧ Text.isAlphanumeric ')' = false := by decide +kernel
  refine ⟨_, compileTrimmed_of_parts (not_mem_head htype hname hgap hgap' hblank.1 hletter.1 (by decide))
    (Text.words_pair htype.isWord hname.isWord hne hgap hgap')
    (hparams.not_mem hslots hblank.1 hletter.1 (by decide))
    (hparams.not_mem hslots hblank.2 hletter.2 (by decide)) ?_ hdeclaring hnamed, hdeclaring, hnamed, hcompiled⟩
  rwa [compileSlots_eq_ok_iff, ← hparams.eq_slotTexts hslots]

/-- **What compiles** the grammar allows. -/
theorem grammatical_of_compileTrimmed {text : List Char} {p : MethodPattern} (hp : compileTrimmed text = .ok p)
    (hhead : ∀ c ∈ text.head?, Text.isBlank c = false) :
    ∃ type name params slots, Grammatical text type name params slots := by
  obtain ⟨type, name, params, hwritten, htype, hname, hparams⟩ := compileTrimmed_eq_ok hp hhead
  refine ⟨type, name, params, slotTexts params, hwritten.parts,
    (TypePattern.exists_compileTrimmed_iff type).1 ⟨_, htype⟩,
    (NamePattern.exists_compile_iff hwritten.words.2.1).1 ⟨_, hname⟩, lists_slotTexts params, ?_⟩
  exact exists_forall₂_reads_iff.1 ⟨_, (compileSlots_eq_ok_iff params _).1 hparams⟩

/-- **The grammar of method patterns.** A text compiles if and only if without the blanks around it it is a
type pattern, a name and a parameter list in parentheses. However it is read in this way, the pattern has the
type and the name, and its slots are those of the parameter list in order. -/
theorem compile_isOk_iff_grammatical (text : String) :
    ((∃ p, compile text = .ok p) ↔
      ∃ type name params slots, Grammatical (Text.trim text.toList) type name params slots) ∧
    ∀ p type name params slots, compile text = .ok p →
      Grammatical (Text.trim text.toList) type name params slots →
      TypePattern.compile (String.ofList type) = .ok p.declaring ∧ NamePattern.compile name = .ok p.name ∧
        List.Forall₂ ParamSlot.Reads slots p.slots := by
  refine ⟨⟨?_, ?_⟩, ?_⟩
  · rintro ⟨p, hp⟩
    exact grammatical_of_compileTrimmed (mapError_eq_ok.1 hp) (Text.isBlank_head?_trim text.toList)
  · rintro ⟨type, name, params, slots, h⟩
    obtain ⟨p, hp, -⟩ := compileTrimmed_of_grammatical h
    exact ⟨p, mapError_eq_ok.2 hp⟩
  · intro p type name params slots hp h
    obtain ⟨q, hq, htype, hname, hslots⟩ := compileTrimmed_of_grammatical h
    obtain rfl : q = p := Except.ok.inj (hq.symm.trans (mapError_eq_ok.1 hp))
    exact ⟨(TypePattern.compile_ofList h.type).2 htype, hname, hslots⟩

/-- All getters of a type and its subtypes with an array of numbers before their last parameter. -/
def arrayGetters : String := "  a..B+\tget* ( .., int[] ,*)"

theorem arrayGetters_grammatical : Grammatical (Text.trim arrayGetters.toList) "a..B+".toList "get*".toList
    " .., int[] ,*".toList ["..".toList, "int[]".toList, "*".toList] := by
  have htexts : slotTexts " .., int[] ,*".toList = ["..".toList, "int[]".toList, "*".toList] := by decide +kernel
  have hdeclaring : TypePattern.IsBody "a..B".toList :=
    ⟨by decide, spellable_of_all (by decide +kernel), by decide, by decide, by decide⟩
  have harray : TypePattern.IsBody "int[]".toList :=
    ⟨by decide, spellable_of_all (by decide +kernel), by decide, by decide, by decide⟩
  refine ⟨⟨['\t'], [' '], by decide +kernel, by decide, by simp [Text.Blank, Text.isBlank],
    by simp [Text.Blank, Text.isBlank]⟩, ⟨_, hdeclaring, Or.inr rfl⟩,
    Or.inr ⟨by decide, spellable_of_all (by decide +kernel)⟩, htexts ▸ lists_slotTexts _, ?_⟩
  intro slot hslot
  simp only [List.mem_cons, List.not_mem_nil, or_false] at hslot
  rcases hslot with rfl | rfl | rfl
  · exact Or.inl rfl
  · exact Or.inr (Or.inr ⟨_, harray, Or.inl rfl⟩)
  · exact Or.inr (Or.inl rfl)

/-- The slots of the pattern are the three of its text. -/
theorem compile_isOk_iff_grammatical_getters :
    ∃ p, compile arrayGetters = .ok p ∧
      List.Forall₂ ParamSlot.Reads ["..".toList, "int[]".toList, "*".toList] p.slots := by
  obtain ⟨haccepts, hreads⟩ := compile_isOk_iff_grammatical arrayGetters
  obtain ⟨p, hp⟩ := haccepts.2 ⟨_, _, _, _, arrayGetters_grammatical⟩
  exact ⟨p, hp, (hreads p _ _ _ _ hp arrayGetters_grammatical).2.2⟩

end MethodPattern

end Refactor
