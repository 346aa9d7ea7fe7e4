import Refactor.Proofs.Pattern.Printing

/-!
# What erasure takes away

Erasure cuts a type name off at its first angle bracket (`eraseChars_append`). Where the name ends with its
generic arguments these are all that is lost. What follows them, such as the brackets of an array or the name
of a member, is lost as well, so that patterns and signatures do not tell the array of a generic type from the
type itself (`readsAs_suffix_iff`).
-/

namespace Refactor

/-- Whatever comes after the first angle bracket plays no part. -/
theorem eraseChars_append {cs : List Char} (h : '<' ∉ cs) (rest : List Char) :
    eraseChars (cs ++ '<' :: rest) = Text.trimEnd cs := by
  have htake : (cs ++ '<' :: rest).takeWhile (· ≠ '<') = cs := by
    have hkeep : ∀ c ∈ cs, decide (c ≠ '<') = true := fun c hc => decide_eq_true fun heq => h (heq ▸ hc)
    rw [List.takeWhile_append_of_pos hkeep]
    simp
  rw [eraseChars, if_pos (by simp), htake]

theorem eraseGenerics_of_not_mem {name : String} (h : '<' ∉ name.toList) : eraseGenerics name = name := by
  rw [eraseGenerics, eraseChars, if_neg h, String.ofList_toList]

/-- A name that has neither angle brackets nor blanks, with generic arguments and more after it. -/
theorem eraseGenerics_generic {base : String} (hbase : '<' ∉ base.toList)
    (hblank : ∀ c ∈ base.toList, Text.isBlank c = false) (arguments suffix : String) :
    eraseGenerics (base ++ "<" ++ arguments ++ ">" ++ suffix) = base := by
  have hname : (base ++ "<" ++ arguments ++ ">" ++ suffix).toList =
      base.toList ++ '<' :: (arguments.toList ++ '>' :: suffix.toList) := by simp
  have hend : Text.trimEnd base.toList = base.toList :=
    Text.trimEnd_of_last fun c hc => hblank c (List.mem_of_getLast? hc)
  rw [eraseGenerics, hname, eraseChars_append hbase, hend, String.ofList_toList]

/-- Two methods with parameters of two types at one place. -/
theorem MethodType.sameSignature_at_iff {m m' : MethodType} {front front' back back' : List String}
    {type type' : String} (hlength : front.length = front'.length) :
    ({ m with parameterTypes := front ++ type :: back }).sameSignature
        { m' with parameterTypes := front' ++ type' :: back' } = true ↔
      m.name = m'.name ∧ front.map eraseGenerics = front'.map eraseGenerics ∧
        eraseGenerics type = eraseGenerics type' ∧ back.map eraseGenerics = back'.map eraseGenerics := by
  have hlength : (front.map eraseGenerics).length = (front'.map eraseGenerics).length := by simpa using hlength
  simp only [sameSignature, List.map_append, List.map_cons, Bool.and_eq_true, decide_eq_true_iff]
  refine and_congr_right fun _ => ⟨fun h => ?_, ?_⟩
  · obtain ⟨hfront, hrest⟩ := List.append_inj h hlength
    exact ⟨hfront, List.cons.inj hrest⟩
  · rintro ⟨hfront, htype, hback⟩
    rw [hfront, htype, hback]

/-! ### Names that are read as others -/

/-- The name is read as the other one, which has no generic arguments: patterns match both or neither, and
signatures take a parameter of the one type as one of the other, and as one of no other type without generic
arguments. -/
structure ReadsAs (name erased : String) : Prop where
  pattern : ∀ text p, TypePattern.compile text = .ok p → p.matchesName name = p.matchesName erased
  like : ∀ (m other : MethodType) (front back : List String),
    ({ m with parameterTypes := front ++ name :: back }).sameSignature other =
      ({ m with parameterTypes := front ++ erased :: back }).sameSignature other
  unlike : ∀ (m m' : MethodType) (front front' back back' : List String) (type : String),
    front.length = front'.length → '<' ∉ type.toList → type ≠ erased →
      ({ m with parameterTypes := front ++ name :: back }).sameSignature
        { m' with parameterTypes := front' ++ type :: back' } = false

theorem readsAs_eraseGenerics (name : String) : ReadsAs name (eraseGenerics name) where
  pattern text p hp := by rw [TypePattern.matchesName, TypePattern.matchesName, toList_eraseGenerics,
    eraseChars_eraseChars]
  like m other front back := by
    simp only [MethodType.sameSignature, List.map_append, List.map_cons, eraseGenerics_eraseGenerics]
  unlike m m' front front' back back' type hlength htype hne := by
    rw [Bool.eq_false_iff, ne_eq, MethodType.sameSignature_at_iff hlength, eraseGenerics_of_not_mem htype]
    exact fun h => hne h.2.2.1.symm

/-- **A name is read as what is left of it**, and as nothing else. -/
theorem readsAs_iff {name erased : String} : ReadsAs name erased ↔ erased = eraseGenerics name := by
  refine ⟨fun h => ?_, fun h => h ▸ readsAs_eraseGenerics name⟩
  by_contra hne
  have hbare : '<' ∉ (eraseGenerics name).toList := by
    rw [toList_eraseGenerics]
    exact not_mem_eraseChars _
  have hsame : (⟨"", "", [name], none⟩ : MethodType).sameSignature ⟨"", "", [eraseGenerics name], none⟩ = true := by
    simp [MethodType.sameSignature]
  have hother := h.unlike ⟨"", "", [], none⟩ ⟨"", "", [], none⟩ [] [] [] [] (eraseGenerics name) rfl hbare
    fun heq => hne heq.symm
  exact Bool.false_ne_true (hother.symm.trans hsame)

section Generic

variable {base : String} (hbase : '<' ∉ base.toList) (hblank : ∀ c ∈ base.toList, Text.isBlank c = false)
  (arguments suffix : String) (hsuffix : '<' ∉ suffix.toList)
include hbase hblank hsuffix

/-- A plain name is a pattern that tells its generic type from the name with the suffix. -/
theorem pattern_generic_iff (hplain : TypePattern.IsPlain base.toList) :
    (∀ text p, TypePattern.compile text = .ok p →
        p.matchesName (base ++ "<" ++ arguments ++ ">" ++ suffix) = p.matchesName (base ++ suffix)) ↔
      suffix = "" := by
  have hgeneric := eraseGenerics_generic hbase hblank arguments suffix
  constructor
  · intro hsame
    obtain ⟨p, hp⟩ := (TypePattern.exists_compileTrimmed_iff base.toList).2 hplain.isType
    obtain ⟨-, hmatches⟩ := hplain.matchesName_iff hp
    have hboth := hsame base p (by rwa [← TypePattern.compile_ofList hplain.isType, String.ofList_toList] at hp)
    have hbare : '<' ∉ (base ++ suffix).toList := by simp [hbase, hsuffix]
    have hkept : p.matchesName (base ++ suffix) = true := by
      rw [← hboth, hmatches, hgeneric, String.ofList_toList]
    rw [hmatches, eraseGenerics_of_not_mem hbare, String.ofList_toList] at hkept
    exact String.append_eq_left_iff.1 hkept
  · rintro rfl text p hp
    simpa using (readsAs_iff.2 hgeneric.symm).pattern text p hp

/-- **What is read of a generic type.** Of a name with generic arguments and something after them, patterns and
signatures read what is before the arguments and no more. So the suffix is kept only if there is none, and a
plain name as a pattern shows that it is lost. -/
theorem readsAs_suffix_iff :
    (∀ erased, ReadsAs (base ++ "<" ++ arguments ++ ">" ++ suffix) erased ↔ erased = base) ∧
      (ReadsAs (base ++ "<" ++ arguments ++ ">" ++ suffix) (base ++ suffix) ↔ suffix = "") ∧
      (TypePattern.IsPlain base.toList →
        ((∀ text p, TypePattern.compile text = .ok p →
            p.matchesName (base ++ "<" ++ arguments ++ ">" ++ suffix) = p.matchesName (base ++ suffix)) ↔
          suffix = "")) := by
  have hread : ∀ erased, ReadsAs (base ++ "<" ++ arguments ++ ">" ++ suffix) erased ↔ erased = base := fun erased => by
    rw [readsAs_iff, eraseGenerics_generic hbase hblank]
  refine ⟨hread, ?_, pattern_generic_iff hbase hblank arguments suffix hsuffix⟩
  rw [hread]
  exact String.append_eq_left_iff

end Generic

/-- Of a list of texts all is read that has to be, and of an array of such lists the brackets are lost. -/
theorem readsAs_suffix_iff_lists :
    ReadsAs "java.util.List<java.lang.String>" "java.util.List" ∧
      ReadsAs "java.util.List<java.lang.String>[]" "java.util.List" ∧
      ¬ ReadsAs "java.util.List<java.lang.String>[]" "java.util.List[]" := by
  have hbase : '<' ∉ "java.util.List".toList := by decide
  have hblank : ∀ c ∈ "java.util.List".toList, Text.isBlank c = false := by
    have hnone : "java.util.List".toList.any Text.isBlank = false := by decide +kernel
    simpa using hnone
  obtain ⟨hplain, -, -⟩ := readsAs_suffix_iff hbase hblank "java.lang.String" "" (by decide)
  obtain ⟨hread, hkept, -⟩ := readsAs_suffix_iff hbase hblank "java.lang.String" "[]" (by decide)
  exact ⟨(hplain _).2 rfl, (hread _).2 rfl, fun h => absurd (hkept.1 h) (by decide)⟩

/-- **Arrays are taken for their elements.** One method takes a list and the other an array of lists, and both have
the same signature. The pattern for the array does not match it, and the pattern for the list does. -/
theorem erasure_confuses_array :
    (⟨"a.A", "f", ["java.util.List<T>[]"], none⟩ : MethodType).sameSignature
        ⟨"a.A", "f", ["java.util.List<T>"], none⟩ = true ∧
      ((TypePattern.compile "java.util.List[]").toOption.map fun p =>
        (p.matchesName "java.util.List<T>[]", p.matchesName "java.util.List[]")) = some (false, true) ∧
      ((TypePattern.compile "java.util.List").toOption.map fun p =>
        (p.matchesName "java.util.List<T>[]", p.matchesName "java.util.List[]")) = some (true, false) := by
  refine ⟨?_, ?_, ?_⟩ <;> decide +kernel

end Refactor
