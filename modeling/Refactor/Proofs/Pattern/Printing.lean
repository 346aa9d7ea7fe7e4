import Refactor.Proofs.Pattern.Expression
import Refactor.Proofs.Pattern.Grammar

/-!
# Signatures as patterns

The text of a signature is written the way patterns are. Where its names are plain, so that nothing in them
reads as a wildcard (`MethodType.Plain`), it is a pattern for that signature: it compiles, and what it matches
is the methods whose erased signature it is (`MethodPattern.compile_text_matches_iff`).

A plain type name has single dots between its segments and none at its ends (`TypePattern.SingleDots`). This
is what the grammar asks of the body of a pattern, and it leaves no room for two dots in a row.
-/

namespace Refactor

namespace TypePattern

/-! ### Plain type names -/

/-- Segments of letters, numbers and some other characters, with a dot between each two of them. -/
def IsPlain (name : List Char) : Prop :=
  ∃ segments : List (List Char), segments ≠ [] ∧
    (∀ s ∈ segments, s ≠ [] ∧ ∀ c ∈ s, Spellable ['_', '$', '[', ']'] c) ∧
    name = ['.'].intercalate segments

theorem isPlain_of_all (segments : List (List Char)) (hne : segments ≠ [])
    (h : segments.all (fun s => !s.isEmpty &&
      s.all fun c => Text.isAlphanumeric c || ['_', '$', '[', ']'].contains c) = true) :
    IsPlain (['.'].intercalate segments) := by
  refine ⟨segments, hne, fun s hs => ?_, rfl⟩
  obtain ⟨hempty, hs⟩ := Bool.and_eq_true_iff.1 (List.all_eq_true.1 h s hs)
  exact ⟨by simpa using hempty, spellable_of_all hs⟩

/-- No dot is at an end of the text, and no two are next to each other. -/
structure SingleDots (cs : List Char) : Prop where
  ne_nil : cs ≠ []
  start : cs.head? ≠ some '.'
  finish : cs.getLast? ≠ some '.'
  apart : ¬ ['.', '.'] <:+: cs

theorem singleDots_of_not_mem {s : List Char} (hne : s ≠ []) (hs : '.' ∉ s) : SingleDots s where
  ne_nil := hne
  start h := hs (List.mem_of_mem_head? h)
  finish h := hs (List.mem_of_getLast? h)
  apart h := hs (h.subset (by simp))

/-- One more segment in front. -/
theorem SingleDots.cons {s cs : List Char} (hne : s ≠ []) (hs : '.' ∉ s) (h : SingleDots cs) :
    SingleDots (s ++ '.' :: cs) := by
  obtain ⟨d, ds, rfl⟩ := List.exists_cons_of_ne_nil h.ne_nil
  have hd : d ≠ '.' := by simpa using h.start
  have hdots : ¬ ['.', '.'] <+: '.' :: d :: ds := by simpa using hd.symm
  refine ⟨by simp, ?_, ?_, ?_⟩
  · rw [List.head?_append_of_ne_nil _ hne]
    exact fun hhead => hs (List.mem_of_mem_head? hhead)
  · have hlast : (s ++ '.' :: d :: ds).getLast? = (d :: ds).getLast? := by
      rw [List.getLast?_append_of_ne_nil _ (by simp), List.getLast?_cons_cons]
    exact hlast ▸ h.finish
  · -- Two dots would lie in the segment, after it, or across its end; each needs one in the segment
    -- or one right after the dot.
    rw [List.infix_append_iff]
    rintro (hinside | hafter | ⟨front, back, hcut, hfront, hback⟩)
    · exact hs (hinside.subset (by simp))
    · rcases List.infix_cons_iff.1 hafter with hnext | hlater
      · exact hdots hnext
      · exact h.apart hlater
    · cases front with
      | nil => exact hdots (by simpa [hcut] using hback)
      | cons c front =>
        obtain ⟨rfl, -⟩ := List.cons.inj hcut
        exact hs (hfront.subset (by simp))

theorem singleDots_intercalate {segments : List (List Char)} (hne : segments ≠ [])
    (h : ∀ s ∈ segments, s ≠ [] ∧ '.' ∉ s) : SingleDots (['.'].intercalate segments) := by
  induction segments with
  | nil => exact absurd rfl hne
  | cons s rest ih =>
    obtain ⟨hs, hrest⟩ := List.forall_mem_cons.1 h
    cases rest with
    | nil => simpa using singleDots_of_not_mem hs.1 hs.2
    | cons s' rest =>
      have hcons := (ih (by simp) hrest).cons hs.1 hs.2
      simpa [List.intercalate_cons_cons] using hcons

variable {name : List Char} (h : IsPlain name)
include h

theorem IsPlain.singleDots : SingleDots name := by
  obtain ⟨segments, hne, hsegments, rfl⟩ := h
  refine singleDots_intercalate hne fun s hs => ⟨(hsegments s hs).1, fun hdot => ?_⟩
  exact ((hsegments s hs).2 '.' hdot).ne (by decide +kernel) (by decide) rfl

theorem IsPlain.spellable : ∀ c ∈ name, Spellable ['_', '$', '[', ']', '.'] c := by
  obtain ⟨segments, hne, hsegments, rfl⟩ := h
  intro c hc
  by_cases hdot : c = '.'
  · exact Or.inr (by simp [hdot])
  · obtain ⟨s, hs, hc⟩ := (Text.mem_intercalate hdot).1 hc
    exact ((hsegments s hs).2 c hc).mono (by simp)

theorem IsPlain.isBody : IsBody name where
  ne_nil := h.singleDots.ne_nil
  spellable c hc := (h.spellable c hc).mono (by simp)
  start hdots := h.singleDots.apart hdots.isInfix
  finish hdot := h.singleDots.finish (by
    obtain ⟨front, rfl⟩ := hdot
    simp)
  dots hdots := h.singleDots.apart (List.IsInfix.trans ⟨[], ['.'], rfl⟩ hdots)

theorem IsPlain.isType : IsType name := ⟨name, h.isBody, Or.inl rfl⟩

theorem IsPlain.not_mem_star : '*' ∉ name := fun hstar =>
  (h.spellable '*' hstar).ne (by decide +kernel) (by decide) rfl

/-- **A plain name as a pattern** matches the types of that erased name, and takes in no subtypes. -/
theorem IsPlain.matchesName_iff {p : TypePattern} (hp : compileTrimmed name = .ok p) :
    p.subtypes = false ∧ ∀ type : String, p.matchesName type = true ↔ eraseGenerics type = String.ofList name := by
  obtain ⟨hbody, hsubtypes, htokens⟩ := compileTrimmed_eq_ok hp
  rw [splitPlus_body h.isBody] at hbody hsubtypes
  have htame : p.hasWildcard = false := by
    rw [hasWildcard, Bool.eq_false_iff, ne_eq, any_isWild_iff htokens, hbody]
    exact not_or.2 ⟨h.not_mem_star, h.singleDots.apart⟩
  refine ⟨hsubtypes, fun type => ?_⟩
  rw [matchesName, htame, hbody, eraseGenerics, String.ofList_inj]
  simp [eq_comm]

end TypePattern

/-! ### Names of methods -/

namespace NamePattern

/-- The name that stands for constructors, or a run of the characters of names. -/
def IsPlain (name : List Char) : Prop :=
  name = constructorName ∨ name ≠ [] ∧ ∀ c ∈ name, Spellable ['_', '$'] c

variable {name : List Char} (h : IsPlain name)
include h

theorem IsPlain.isName : IsName name := by
  refine h.imp_right ?_
  rintro ⟨hne, hname⟩
  exact ⟨hne, fun c hc => (hname c hc).mono (by simp)⟩

theorem IsPlain.not_mem {c : Char} (hconstructor : c ∉ constructorName)
    (halphanumeric : Text.isAlphanumeric c = false) (hothers : c ∉ ['_', '$']) : c ∉ name := by
  intro hc
  rcases h with rfl | ⟨-, hname⟩
  · exact hconstructor hc
  · exact (hname c hc).ne halphanumeric hothers rfl

/-- **A plain name** matches itself alone. -/
theorem IsPlain.matchesName_iff {p : NamePattern} (hp : compile name = .ok p) (other : String) :
    p.matchesName other = true ↔ other = String.ofList name := by
  have hstar : '*' ∉ name := h.not_mem (by decide) (by decide +kernel) (by decide)
  have hdot : '.' ∉ name := h.not_mem (by decide) (by decide +kernel) (by decide)
  have hne : name ≠ ['*'] := by
    rintro rfl
    exact hstar (by simp)
  rw [NamePattern.matchesName_iff hp, spelled_iff_eq hstar hdot, ← String.toList_inj, String.toList_ofList]
  simp [hne]

end NamePattern

/-! ### Parameters -/

namespace ParamSlot

/-- **Plain types as slots** match the parameters that are these when erased. -/
theorem matchAll_iff_of_plain {types : List String} {slots : List ParamSlot}
    (hplain : ∀ t ∈ types, TypePattern.IsPlain t.toList)
    (hslots : List.Forall₂ Reads (types.map String.toList) slots) (params : List String) :
    matchAll slots params = true ↔ params.map eraseGenerics = types := by
  induction types generalizing slots params with
  | nil =>
    cases hslots
    simp [matchAll]
  | cons t types ih =>
    obtain ⟨ht, htypes⟩ := List.forall_mem_cons.1 hplain
    rw [List.map_cons] at hslots
    obtain ⟨slot, others, hslot, hothers, rfl⟩ := List.forall₂_cons_left_iff.1 hslots
    obtain ⟨p, rfl, hp⟩ : ∃ p, slot = .type p ∧ TypePattern.compileTrimmed t.toList = .ok p := by
      generalize ht' : t.toList = text at hslot ht
      cases hslot with
      | rest => exact absurd rfl ht.singleDots.start
      | one => exact absurd (by simp) ht.not_mem_star
      | type _ htype hp => exact ⟨_, rfl, (TypePattern.compile_ofList htype).1 hp⟩
    cases params with
    | nil => simp [matchAll]
    | cons param params =>
      have hparam := (ht.matchesName_iff hp).2 param
      rw [String.ofList_toList] at hparam
      rw [matchAll, Bool.and_eq_true, hparam, ih htypes hothers, List.map_cons, List.cons.injEq]

end ParamSlot

namespace MethodPattern

/-- With the blank after each comma put before what follows it, a list is one with commas alone. -/
theorem intercalate_comma_blank (t : List Char) (ts : List (List Char)) :
    [',', ' '].intercalate (t :: ts) = [','].intercalate (t :: ts.map (' ' :: ·)) := by
  induction ts generalizing t with
  | nil => simp
  | cons t' ts ih =>
    rw [List.intercalate_cons_cons, ih, List.map_cons, List.intercalate_cons_cons]
    cases ts with
    | nil => simp
    | cons t'' ts => simp [List.intercalate_cons_cons]

/-- **A printed parameter list** lists the types that were printed. -/
theorem lists_intercalate {types : List (List Char)} (h : ∀ t ∈ types, ParamSlot.IsSlot t) :
    Lists ([',', ' '].intercalate types) types := by
  cases types with
  | nil => exact .none (by simp [Text.Blank])
  | cons t ts =>
    have hcomma : ∀ s ∈ t :: ts, ',' ∉ s := fun s hs hmem =>
      ((h s hs).spellable ',' hmem).ne (by decide +kernel) (by decide) rfl
    have hblank : ∀ s ∈ t :: ts, ∀ c ∈ s, Text.isBlank c = false := fun s hs c hc =>
      ((h s hs).spellable c hc).isBlank (by decide)
    have htrim : (t :: ts.map (' ' :: ·)).map Text.trim = t :: ts := by
      rw [List.map_cons, List.map_map, Text.trim_of_not_isBlank (hblank t (by simp))]
      have hts : ts.map (Text.trim ∘ (' ' :: ·)) = ts.map id := by
        refine List.map_congr_left fun s hs => ?_
        exact Text.trim_of_not_isBlank (hblank s (List.mem_cons_of_mem _ hs))
      rw [hts, List.map_id]
    have hlists : Lists ([','].intercalate (t :: ts.map (' ' :: ·))) ((t :: ts.map (' ' :: ·)).map Text.trim) := by
      refine .some (by simp) fun text htext => ?_
      rcases List.mem_cons.1 htext with rfl | htext
      · exact hcomma text (by simp)
      · obtain ⟨s, hs, rfl⟩ := List.mem_map.1 htext
        simpa using hcomma s (List.mem_cons_of_mem _ hs)
    rwa [htrim, ← intercalate_comma_blank] at hlists

end MethodPattern

/-! ### Signatures -/

/-- All names in the signature are plain. -/
structure MethodType.Plain (m : MethodType) : Prop where
  declaring : TypePattern.IsPlain m.declaringType.toList
  name : NamePattern.IsPlain m.name.toList
  parameters : ∀ t ∈ m.parameterTypes, TypePattern.IsPlain t.toList

namespace MethodPattern

section Text

variable {m : MethodType} (h : m.Plain)
include h

/-- **The text of a plain signature** is a pattern. -/
theorem grammatical_text : Grammatical m.text.toList m.declaringType.toList m.name.toList
    ([',', ' '].intercalate (m.parameterTypes.map String.toList)) (m.parameterTypes.map String.toList) := by
  have hslots : ∀ t ∈ m.parameterTypes.map String.toList, ParamSlot.IsSlot t := by
    rw [List.forall_mem_map]
    exact fun t ht => Or.inr (Or.inr (h.parameters t ht).isType)
  refine ⟨⟨[' '], [], ?_, by simp, by simp [Text.Blank, Text.isBlank], by simp [Text.Blank]⟩,
    h.declaring.isType, h.name.isName, lists_intercalate hslots, hslots⟩
  simp [MethodType.text, String.toList_intercalate]

theorem trim_text : Text.trim m.text.toList = m.text.toList := by
  obtain ⟨gap, gap', htext, -⟩ := (grammatical_text h).parts
  refine Text.trim_of_ends ?_ ?_
  · obtain ⟨hne, hword⟩ := h.declaring.isType.isWord
    rw [htext, List.append_assoc, List.head?_append_of_ne_nil _ hne]
    exact fun c hc => hword c (List.mem_of_mem_head? hc)
  · have hlast : m.text.toList.getLast? = some ')' := by
      rw [htext, ← List.cons_append, ← List.append_assoc, List.getLast?_concat]
    rw [hlast]
    rintro c ⟨⟩
    decide

end Text

/-- **A signature and its text.** The text of a signature with plain names compiles. In every table of classes
the pattern matches a method exactly if without generic arguments it has that signature: declared in that type,
of that name, and with those parameter types. -/
theorem compile_text_matches_iff {m : MethodType} (h : m.Plain) : ∃ p, compile m.text = .ok p ∧
    ∀ (table : Hierarchy) (other : MethodType), (p.matchesIn table other).value = true ↔
      eraseGenerics other.declaringType = m.declaringType ∧ other.name = m.name ∧
        other.parameterTypes.map eraseGenerics = m.parameterTypes := by
  obtain ⟨p, hp, hdeclaring, hname, hslots⟩ := compileTrimmed_of_grammatical (grammatical_text h)
  have hcompile : compile m.text = .ok p := by
    rw [compile, trim_text h]
    exact mapError_eq_ok.2 hp
  obtain ⟨hsubtypes, htype⟩ := h.declaring.matchesName_iff hdeclaring
  refine ⟨p, hcompile, fun table other => ?_⟩
  -- Neither subtypes nor overriding methods count, so the table is not looked at.
  rw [value_matchesIn, value_matchesIn_type, hsubtypes, (text_of_compile hcompile).2, htype,
    h.name.matchesName_iff hname, ParamSlot.matchAll_iff_of_plain h.parameters hslots]
  simp only [String.ofList_toList, Bool.false_eq_true, false_and, or_false]
  tauto

/-- The constructor of a nested class, with an array and a list. -/
def nestedConstructor : MethodType := ⟨"a.B$C", "<constructor>", ["int[]", "java.util.List"], none⟩

theorem nestedConstructor_plain : nestedConstructor.Plain := by
  have hdeclaring : TypePattern.IsPlain "a.B$C".toList :=
    TypePattern.isPlain_of_all ["a".toList, "B$C".toList] (by simp) (by decide +kernel)
  have harray : TypePattern.IsPlain "int[]".toList :=
    TypePattern.isPlain_of_all ["int[]".toList] (by simp) (by decide +kernel)
  have hlist : TypePattern.IsPlain "java.util.List".toList :=
    TypePattern.isPlain_of_all ["java".toList, "util".toList, "List".toList] (by simp)
      (by decide +kernel)
  exact ⟨hdeclaring, Or.inl rfl, List.forall_mem_cons.2 ⟨harray, List.forall_mem_singleton.2 hlist⟩⟩

theorem compile_text_matches_iff_nested :
    ∃ p, compile "a.B$C <constructor>(int[], java.util.List)" = .ok p ∧
      (p.matchesIn {} ⟨"a.B$C<T>", "<constructor>", ["int[]", "java.util.List<T>"], some "void"⟩).value = true ∧
      ¬ (p.matchesIn {} ⟨"a.B$C", "<constructor>", ["int", "java.util.List"], none⟩).value = true := by
  obtain ⟨p, hp, hmatches⟩ := compile_text_matches_iff nestedConstructor_plain
  refine ⟨p, hp, (hmatches {} _).2 (by decide +kernel), fun h => ?_⟩
  exact absurd ((hmatches {} _).1 h) (by decide +kernel)

end MethodPattern

end Refactor
